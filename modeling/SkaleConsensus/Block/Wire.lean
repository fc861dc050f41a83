import SkaleConsensus.Block.Proposal
import SkaleConsensus.Crypto.DAProof

/-! Blocks as bytes.

A serialized proposal or block is the length of its header, the header, which is a
JSON object, and the transactions between angle brackets. The header lists the size of
each transaction, which ends with the first bytes of its hash.

The JSON reader, Boost's `u256` and the BLS library are parameters. What a failed
parse throws is the outermost exception. -/
namespace SkaleConsensus.Block
open Library Crypto

def MAX_BUFFER_SIZE : ℕ := 8 * 1024 * 1024

/-! ### JSON -/

/-- A value of the JSON library. A number is what it is as a `uint64_t`. -/
inductive Json where
  | null
  | boolean (b : Bool)
  | number (n : UInt64)
  | string (text : Bytes)
  | array (items : List Json)
  | object (members : List (String × Json))
deriving Inhabited

namespace Json
variable (js : Json) (name : String)

def find? : Option Json :=
  match js with
  | .object members => members.lookup name
  | _ => none

/-- `nullCheck` and `operator[]`. -/
def member : Except String Json :=
  match js.find? name with
  | some value => pure value
  | none => throw ("Null " ++ name ++ " in json")

def toUint64 : Json → Except String ℕ
  | .number n => pure n.toNat
  | _ => throw "type must be number"

/-- Narrower types also take a Boolean. -/
def toUint32 : Json → Except String ℕ
  | .number n => pure (n.toNat % 2 ^ 32)
  | .boolean b => pure b.toNat
  | _ => throw "type must be number"

def toText : Json → Except String Bytes
  | .string text => pure text
  | _ => throw "type must be string"

def getUint64 : Except String ℕ := js.member name >>= toUint64

def getUint32 : Except String ℕ := js.member name >>= toUint32

def getString : Except String Bytes := js.member name >>= toText

def maybeGetString : Except String Bytes :=
  match js.find? name with
  | none => pure []
  | some _ => js.getString name

/-- What a range-based `for` visits: a value that is not a container is visited itself. -/
def items : List Json :=
  match js with
  | .null => []
  | .array items => items
  | .object members => members.map Prod.snd
  | value => [value]

variable {js name}

theorem getUint64_of_find? {x : ℕ}
    (h : js.find? name = some (.number (.ofNat x))) (hx : x < 2 ^ 64) :
    js.getUint64 name = .ok x := by
  unfold getUint64 member
  rw [h]
  show Except.ok (UInt64.ofNat x).toNat = .ok x
  rw [UInt64.toNat_ofNat', Nat.mod_eq_of_lt hx]

theorem getUint32_of_find? {x : ℕ}
    (h : js.find? name = some (.number (.ofNat x))) (hx : x < 2 ^ 32) :
    js.getUint32 name = .ok x := by
  unfold getUint32 member
  rw [h]
  show Except.ok ((UInt64.ofNat x).toNat % 2 ^ 32) = .ok x
  rw [UInt64.toNat_ofNat', Nat.mod_eq_of_lt (hx.trans (by decide)), Nat.mod_eq_of_lt hx]

end Json

/-! ### Headers -/

structure BlockProposalHeader where
  proposerIndex : SchainIndex
  proposerNodeID : NodeID
  blockID : ℕ
  schainID : SchainID
  timeStamp : ℕ
  timeStampMs : ℕ
  blockHash : Bytes
  signature : Bytes
  stateRoot : BitVec 256
  transactionSizes : List ℕ
deriving DecidableEq, Repr

structure CommittedBlockHeader extends BlockProposalHeader where
  thresholdSig : Bytes
  daSig : Bytes
deriving DecidableEq, Repr

/-- What the readers of blocks know of their chain, and the libraries they call. -/
structure BlockReader where
  cm : CryptoManager
  json : Bytes → Option Json
  u256 : Bytes → Option (BitVec 256)
  /-- `ConsensusBLSSignature` and `verifyThresholdSig`, with the keys of the time stamp. -/
  verifyThresholdSig : Bytes → ℕ → Hash → TimeStamp → Bool
  simulateBLSSigFailBlock : ℕ
  verifyDaSigsPatchTimestampS : ℕ

namespace BlockReader

/-- One of four nodes; it knows no header and no threshold signature. -/
def ofFour : BlockReader where
  cm := fourSigners [] []
  json _ := none
  u256 text := (decimal text).map (BitVec.ofNat 256)
  verifyThresholdSig _ _ _ _ := false
  simulateBLSSigFailBlock := 0
  verifyDaSigsPatchTimestampS := 0

variable (r : BlockReader)

def blockProposalHeader (js : Json) : Except String BlockProposalHeader := do
  let proposerIndex ← js.getUint64 "proposerIndex"
  let proposerNodeID ← js.getUint64 "proposerNodeID"
  let blockID ← js.getUint64 "blockID"
  let schainID ← js.getUint64 "schainID"
  let timeStamp ← js.getUint64 "timeStamp"
  let timeStampMs ← js.getUint32 "timeStampMs"
  let blockHash ← js.getString "hash"
  let signature ← js.getString "sig"
  let srStr ← js.getString "sr"
  match r.u256 srStr with
  | none => throw "u256"
  | some stateRoot =>
    let sizes ← js.member "sizes"
    let transactionSizes ← sizes.items.mapM Json.toUint64
    return {
      proposerIndex, proposerNodeID, blockID, schainID, timeStamp, timeStampMs, blockHash,
      signature, stateRoot, transactionSizes }

def committedBlockHeader (js : Json) : Except String CommittedBlockHeader := do
  let header ← r.blockProposalHeader js
  let thresholdSig ← js.getString "thrSig"
  checkState (!thresholdSig.isEmpty) "!thresholdSig.empty()"
  let daSig ← js.maybeGetString "daSig"
  return ⟨header, thresholdSig, daSig⟩

/-- `parseBlockHeader`, of a proposal or of a committed block. -/
def parseBlockHeader {α : Type} (construct : Json → Except String α) (header : Bytes) :
    Except String α := do
  checkArgument (!header.isEmpty) "!_header.empty()"
  checkArgument (decide (2 < header.length)) "_header.size() > 2"
  if header.head? != some 123 then
    throw "Argument Check failed:Block header does not start with \x7b"
  if header.getLast? != some 125 then
    throw "Argument Check failed:Block header does not end with \x7d"
  match r.json header with
  | none => throw "parse error"
  | some js => construct js

end BlockReader

/-! ### Taking bytes apart -/

/-- `vector::at`. -/
def byteAt (bytes : Bytes) (i : ℕ) : Except String UInt8 :=
  match bytes[i]? with
  | some b => pure b
  | none => throw "vector::_M_range_check"

theorem byteAt_eq_ok {bytes : Bytes} {i : ℕ} {b : UInt8} :
    byteAt bytes i = .ok b ↔ bytes[i]? = some b := by
  unfold byteAt
  cases bytes[i]? with
  | none => exact ⟨nofun, nofun⟩
  | some c =>
    exact ⟨fun h => congrArg some (Except.ok.inj h), fun h => congrArg _ (Option.some.inj h)⟩

def extractHeader (serializedBlock : Bytes) : Except String Bytes := do
  if serializedBlock.length < 8 + 2 then throw "Argument Check failed:Serialized block too small"
  let headerSize := fromLeBytes (serializedBlock.take 8)
  if headerSize < 2 ∨ serializedBlock.length < (headerSize + 8) % 2 ^ 64 then
    throw "Check failed::Invalid header size"
  checkState (decide (headerSize ≤ MAX_BUFFER_SIZE)) "headerSize <= MAX_BUFFER_SIZE"
  let less ← byteAt serializedBlock (headerSize + 8)
  checkState (less == 60) "_serializedBlock->at( headerSize + sizeof( headerSize ) ) == '<'"
  let brace ← byteAt serializedBlock 8
  checkState (brace == 123) "_serializedBlock->at( sizeof( headerSize ) ) == '\x7b'"
  checkState (serializedBlock.getLast? == some 62) "_serializedBlock->back() == '>'"
  return (serializedBlock.drop 8).take headerSize

section Transactions
variable (blake3 : Bytes → Hash)

theorem take_ne_nil {bytes : Bytes} {n : ℕ} (h : n < bytes.length) :
    bytes.take (bytes.length - n) ≠ [] := by
  intro hnil
  have hlength := congrArg List.length hnil
  rw [List.length_take, List.length_nil] at hlength
  omega

/-- The constructor of `Transaction`. -/
def Transaction.make (trx : Bytes) (includesPartialHash : Bool) : Except String Transaction :=
  if includesPartialHash then
    if h : PARTIAL_HASH_LEN < trx.length then
      let t : Transaction := ⟨trx.take (trx.length - PARTIAL_HASH_LEN), take_ne_nil h⟩
      if t.partialHash blake3 = trx.drop (trx.length - PARTIAL_HASH_LEN) then pure t
      else throw "Argument Check failed:Transaction partial hash does not match"
    else throw "Argument Check failed:_trx->size() > PARTIAL_HASH_LEN"
  else if h : trx ≠ [] then pure ⟨trx, h⟩
  else throw "Argument Check failed:_trx->size() > 0"

/-- A vector made from a range; a range that wraps around is longer than any vector. -/
def slice (bytes : Bytes) (start len : ℕ) : Except String Bytes :=
  if bytes.length < start + len then throw "cannot create std::vector larger than max_size()"
  else pure ((bytes.drop start).take len)

theorem slice_eq_ok {bytes part : Bytes} {start len : ℕ} (h : slice bytes start len = .ok part) :
    start + len ≤ bytes.length ∧ (bytes.drop start).take len = part := by
  unfold slice at h
  split_ifs at h with hlong
  exact ⟨Nat.not_lt.mp hlong, Except.ok.inj h⟩

def Transaction.deserialize (data : Bytes) (startIndex len : ℕ) (verifyPartialHashes : Bool) :
    Except String Transaction := do
  checkArgument (decide ((startIndex + len) % 2 ^ 64 ≤ data.length))
    "_startIndex + _len <= _data->size()"
  checkArgument (decide (0 < len)) "_len > 0"
  let transactionData ← slice data startIndex len
  Transaction.make blake3 transactionData verifyPartialHashes

def deserializeFrom (serialized : Bytes) (checkPartialHash : Bool) :
    ℕ → List ℕ → Except String (List Transaction)
  | _, [] => pure []
  | index, size :: sizes => do
    checkArgument (decide (0 < size)) "size > 0"
    let transaction ←
      (Transaction.deserialize blake3 serialized index size checkPartialHash).mapError
        fun _ => "Could not parse transaction"
    let transactions ← deserializeFrom serialized checkPartialHash (index + size) sizes
    return transaction :: transactions

/-- The constructor of `TransactionList`. -/
def TransactionList.deserialize (transactionSizes : List ℕ) (serialized : Bytes) (offset : ℕ)
    (checkPartialHash : Bool) : Except String (List Transaction) := do
  let less ← byteAt serialized offset
  checkArgument (less == 60) "_serializedTransactions->at( _offset ) == '<'"
  checkArgument (serialized.getLast? == some 62)
    "_serializedTransactions->at( _serializedTransactions->size() - 1 ) == '>'"
  if transactionSizes.isEmpty then
    if serialized.length - offset ≠ 2 then throw "Size not equal to 2"
    return []
  checkArgument (transactionSizes.all fun size => decide (0 < size)) "size > 0"
  let shortest := if checkPartialHash then PARTIAL_HASH_LEN + 2 else 2
  checkArgument (decide (shortest < serialized.length - offset))
    "_serializedTransactions->size() - _offset > 2"
  deserializeFrom blake3 serialized checkPartialHash (offset + 1) transactionSizes

/-- `BlockProposal::deserializeTransactions`. -/
def deserializeTransactions (header : BlockProposalHeader) (headerString serializedBlock : Bytes) :
    Except String (List Transaction) :=
  (TransactionList.deserialize blake3 header.transactionSizes serializedBlock
    (headerString.length + 8) true).mapError fun _ => "Could not parse transactions after header"

end Transactions

/-! ### Proposals -/

/-- What a header and the transactions after it make. -/
def BlockProposalHeader.fields (h : BlockProposalHeader) (list : List Transaction) :
    ProposalFields where
  schainID := h.schainID
  proposerNodeID := h.proposerNodeID
  blockID := h.blockID
  proposerIndex := h.proposerIndex
  transactionList := list
  stateRoot := h.stateRoot
  timeStamp := h.timeStamp
  timeStampMs := h.timeStampMs
  signature := h.signature

namespace BlockReader

variable (r : BlockReader)

/-- `BlockProposal::deserialize`. -/
def deserializeProposal (serializedProposal : Bytes) (verifySig : Bool) :
    Except String BlockProposal := do
  let headerStr ← extractHeader serializedProposal
  checkState (!headerStr.isEmpty) "!headerStr.empty()"
  let blockHeader ← (r.parseBlockHeader r.blockProposalHeader headerStr).mapError
    fun _ => "Could not parse block header"
  let list ← deserializeTransactions r.cm.blake3 blockHeader headerStr serializedProposal
  checkState (!blockHeader.signature.isEmpty) "!signature.empty()"
  let proposal ← BlockProposal.make (blockHeader.fields list)
  if verifySig && blockHeader.proposerIndex != 0 then
    (proposal.verifyProposalECDSA r.cm blockHeader.blockHash blockHeader.signature).mapError
      fun _ => "deserialize"
  return proposal

/-! ### Committed blocks -/

/-- `BLAKE3Hash::getConsensusHash`: what the chain signs of a block. -/
def getConsensusHash (blockProposerIndex blockId schainId : ℕ) : Hash :=
  r.cm.blake3 (consensusHashInput blockProposerIndex blockId schainId)

/-- `CommittedBlock::verifyBlockSig`. -/
def verifyBlockSig (block : CommittedBlock) : Bool :=
  !(decide (0 < r.simulateBLSSigFailBlock) && r.simulateBLSSigFailBlock == block.blockID) &&
    (!r.cm.verifyRealSignatures ||
      r.verifyThresholdSig block.thresholdSig block.blockID
        (r.getConsensusHash block.proposerIndex block.blockID block.schainID) block.getTimeStamp)

/-- `CommittedBlock::verifyDaSig`. -/
def verifyDaSig (block : CommittedBlock) : EStateM String SessionCache Unit :=
  if block.proposerIndex = 0 then pure ()
  else verifyDAProofThresholdSig r.cm
    ⟨block.hash r.cm.blake3, block.daSig, block.blockID, block.timeStamp⟩

/-- The part of `CommittedBlock::deserialize` before the signatures. -/
def parseBlock (serializedBlock : Bytes) :
    Except String (CommittedBlockHeader × CommittedBlock) := do
  let brace ← byteAt serializedBlock 8
  checkArgument (brace == 123) "_serializedBlock->at( sizeof( uint64_t ) ) == '\x7b'"
  checkArgument (serializedBlock.getLast? == some 62) "_serializedBlock->back() == '>'"
  let headerStr ← extractHeader serializedBlock
  checkState (!headerStr.isEmpty) "!headerStr.empty()"
  let blockHeader ← (r.parseBlockHeader r.committedBlockHeader headerStr).mapError
    fun _ => "Could not parse committed block header"
  let list ← (deserializeTransactions r.cm.blake3 blockHeader.toBlockProposalHeader headerStr
    serializedBlock).mapError fun _ => "Could not deserialize transactions"
  let block ← (CommittedBlock.make (blockHeader.fields list) blockHeader.thresholdSig
    blockHeader.daSig).mapError fun _ => "Could not make block"
  return (blockHeader, block)

/-- `CommittedBlock::deserialize`. -/
def deserializeBlock (serializedBlock : Bytes) (verifySig : Bool) :
    EStateM String SessionCache CommittedBlock :=
  match r.parseBlock serializedBlock with
  | .error e => throw e
  | .ok (blockHeader, block) => do
    if verifySig then
      if blockHeader.proposerIndex != 0 then
        match block.verifyProposalECDSA r.cm blockHeader.blockHash blockHeader.signature with
        | .error _ => throw "deserialize"
        | .ok _ => pure ()
      if !r.verifyBlockSig block then
        throw "Block threshold signature did not verify in deserialization"
      if !block.isLegacy then
        (r.verifyDaSig block).adaptExcept
          fun _ => "Block da signature did not verify in deserialization"
    return block

/-- `Schain::verifyDASigsPatch`. -/
def verifyDASigsPatch (blockTimeStampS : ℕ) : Bool :=
  r.verifyDaSigsPatchTimestampS != 0 && decide (r.verifyDaSigsPatchTimestampS ≤ blockTimeStampS)

/-! ### Lists of blocks -/

/-- One turn of the loop of `CommittedBlockList`. -/
def readBlock (serializedBlocks : Bytes) (index size : ℕ) :
    EStateM String SessionCache CommittedBlock := do
  checkState (decide ((index + size) % 2 ^ 64 ≤ serializedBlocks.length))
    "endIndex <= _serializedBlocks->size()"
  match slice serializedBlocks index size with
  | .error e => throw e
  | .ok blockData =>
    let block ← r.deserializeBlock blockData true
    if r.verifyDASigsPatch block.timeStamp && block.proposerIndex != 0 && block.daSig.isEmpty then
      throw "Check failed::Catchup received a block without DA sig:"
    return block

/-- The loop: the blocks before the first that throws, what it throws, and the cache. -/
def readBlocks (serializedBlocks : Bytes) :
    ℕ → List ℕ → SessionCache → List CommittedBlock × Option String × SessionCache
  | _, [], c => ([], none, c)
  | index, size :: sizes, c =>
    match (r.readBlock serializedBlocks index size).run c with
    | .error e c' => ([], some e, c')
    | .ok block c' =>
      let (blocks, thrown, c'') := readBlocks serializedBlocks (index + size) sizes c'
      (block :: blocks, thrown, c'')

/-- The cache when the loop comes to the block behind the first `k`. -/
def cacheAt (serializedBlocks : Bytes) (index : ℕ) (sizes : List ℕ) (k : ℕ) (c : SessionCache) :
    SessionCache :=
  (r.readBlocks serializedBlocks index (sizes.take k) c).2.2

/-- The constructor of `CommittedBlockList`. A list of several blocks is cut before the
first that does not verify. -/
def committedBlockList (blockSizes : List ℕ) (serializedBlocks : Bytes) (offset : ℕ)
    (createPartialList : Bool) : EStateM String SessionCache (List CommittedBlock) := do
  checkArgument (serializedBlocks[offset]? == some 91) "_serializedBlocks->at( _offset ) == '['"
  checkArgument (serializedBlocks.getLast? == some 93)
    "_serializedBlocks->at( _serializedBlocks->size() - 1 ) == ']'"
  let cache ← get
  let (blocks, thrown, cache') := r.readBlocks serializedBlocks (offset + 1) blockSizes cache
  set cache'
  if thrown.isSome && !(decide (1 < blockSizes.length) && createPartialList) then
    throw "Could not create block list."
  return blocks

/-- `CommittedBlockList::deserialize`. -/
def deserializeBlockList (blockSizes : List ℕ) (serializedBlocks : Bytes) (offset : ℕ)
    (createPartialList : Bool) : EStateM String SessionCache (List CommittedBlock) := do
  if serializedBlocks.head? != some 91 then throw "Serialized blocks do not start with ["
  r.committedBlockList blockSizes serializedBlocks offset createPartialList

/-! ### What was checked -/

section Checked
variable {r} {block : CommittedBlock} {c c' : SessionCache}
  {serializedBlocks serializedBlock : Bytes} {index : ℕ}

theorem of_mem_readBlocks {sizes : List ℕ}
    (h : block ∈ (r.readBlocks serializedBlocks index sizes c).1) :
    ∃ k index' size c', (r.readBlocks serializedBlocks index sizes c).1[k]? = some block ∧
      (r.readBlock serializedBlocks index' size).run
        (r.cacheAt serializedBlocks index sizes k c) = .ok block c' := by
  induction sizes generalizing index c with
  | nil => cases h
  | cons size sizes ih =>
    unfold cacheAt
    cases hread : (r.readBlock serializedBlocks index size).run c with
    | error e c₁ =>
      rw [readBlocks, hread] at h
      cases h
    | ok first c₁ =>
      rw [readBlocks, hread] at h ⊢
      rcases List.mem_cons.mp h with rfl | hmem
      · exact ⟨0, index, size, c₁, rfl, hread⟩
      · obtain ⟨k, index', size', c', hk, hlater⟩ := ih hmem
        refine ⟨k + 1, index', size', c', hk, ?_⟩
        rw [List.take_succ_cons, readBlocks, hread]
        exact hlater

theorem of_deserializeBlockList {blockSizes : List ℕ} {offset : ℕ} {createPartialList : Bool}
    {blocks : List CommittedBlock}
    (h : (r.deserializeBlockList blockSizes serializedBlocks offset createPartialList).run c =
      .ok blocks c') :
    ∀ block ∈ blocks, ∃ k index size c₁, blocks[k]? = some block ∧
      (r.readBlock serializedBlocks index size).run
        (r.cacheAt serializedBlocks (offset + 1) blockSizes k c) = .ok block c₁ := by
  unfold deserializeBlockList at h
  split_ifs at h
  · cases h
  · obtain ⟨⟨⟩, c₁, hless, h₁⟩ := run_bind_eq_ok.mp h
    obtain ⟨⟨⟩, c₂, hlast, h₂⟩ := run_bind_eq_ok.mp h₁
    obtain ⟨-, rfl⟩ := checkArgument_run_eq_ok.mp hless
    obtain ⟨-, rfl⟩ := checkArgument_run_eq_ok.mp hlast
    rw [run_get_bind] at h₂
    dsimp only at h₂
    obtain ⟨⟨⟩, c₃, -, h₃⟩ := run_bind_eq_ok.mp h₂
    split_ifs at h₃
    · cases h₃
    · cases h₃
      exact fun block hblock => of_mem_readBlocks hblock

theorem of_readBlock {size : ℕ}
    (h : (r.readBlock serializedBlocks index size).run c = .ok block c') :
    (∃ blockData, slice serializedBlocks index size = .ok blockData ∧
      (r.deserializeBlock blockData true).run c = .ok block c') ∧
    (r.verifyDASigsPatch block.timeStamp = true → block.proposerIndex ≠ 0 → block.daSig ≠ []) := by
  obtain ⟨⟨⟩, c₁, hend, h₁⟩ := run_bind_eq_ok.mp h
  obtain ⟨-, rfl⟩ := checkState_run_eq_ok.mp hend
  cases hslice : slice serializedBlocks index size with
  | error e =>
    rw [hslice] at h₁
    cases h₁
  | ok blockData =>
    rw [hslice] at h₁
    obtain ⟨read, c₂, hread, h₂⟩ := run_bind_eq_ok.mp h₁
    split_ifs at h₂ with hunsigned
    · cases h₂
    · cases h₂
      refine ⟨⟨blockData, rfl, hread⟩, fun hpatch hindex hempty => hunsigned ?_⟩
      rw [hpatch, hempty]
      simpa using hindex

/-- What `deserialize` has checked when it returns a block with its signatures. -/
theorem of_deserializeBlock (h : (r.deserializeBlock serializedBlock true).run c = .ok block c') :
    (∃ header, r.parseBlock serializedBlock = .ok (header, block)) ∧ r.verifyBlockSig block = true ∧
      (block.isLegacy = false → (r.verifyDaSig block).run c = .ok () c') := by
  unfold deserializeBlock at h
  cases hparse : r.parseBlock serializedBlock with
  | error e =>
    rw [hparse] at h
    cases h
  | ok parsed =>
    obtain ⟨header, parsed⟩ := parsed
    rw [hparse] at h
    dsimp only at h
    rw [if_pos rfl] at h
    -- The proposer's signature, unless it is a default block.
    obtain ⟨k, hrest⟩ : ∃ k : Unit → EStateM String SessionCache CommittedBlock,
        (if (!r.verifyBlockSig parsed) = true then
          throw "Block threshold signature did not verify in deserialization" >>= k
        else if (!parsed.isLegacy) = true then do
          EStateM.adaptExcept (fun _ => "Block da signature did not verify in deserialization")
            (r.verifyDaSig parsed)
          pure parsed
        else pure parsed).run c = .ok block c' := by
      split at h
      · split at h
        · cases h
        · exact ⟨_, h⟩
      · exact ⟨_, h⟩
    cases hsig : r.verifyBlockSig parsed with
    | false =>
      rw [hsig] at hrest
      cases hrest
    | true =>
      rw [hsig, if_neg (by decide)] at hrest
      cases hlegacy : parsed.isLegacy with
      | true =>
        rw [hlegacy, if_neg (by decide)] at hrest
        cases hrest
        refine ⟨⟨header, rfl⟩, hsig, fun hsigned => ?_⟩
        rw [hlegacy] at hsigned
        cases hsigned
      | false =>
        rw [hlegacy, if_pos (by decide)] at hrest
        obtain ⟨⟨⟩, c₁, hverify, hreturn⟩ := run_bind_eq_ok.mp hrest
        cases hreturn
        exact ⟨⟨header, rfl⟩, hsig, fun _ => run_adaptExcept_eq_ok.mp hverify⟩

theorem length_of_deserializeFrom {blake3 : Bytes → Hash} {serialized : Bytes}
    {checkPartialHash : Bool} {sizes : List ℕ} {list : List Transaction}
    (h : deserializeFrom blake3 serialized checkPartialHash index sizes = .ok list) :
    list.length = sizes.length := by
  induction sizes generalizing index list with
  | nil =>
    cases h
    rfl
  | cons size sizes ih =>
    have h₁ := after_check h
    obtain ⟨transaction, h₂⟩ := after_bind h₁
    obtain ⟨transactions, hrest, h₃⟩ := bind_eq_ok.mp h₂
    cases h₃
    rw [List.length_cons, List.length_cons, ih hrest]

theorem length_of_deserializeTransactions {blake3 : Bytes → Hash} {header : BlockProposalHeader}
    {headerString : Bytes} {list : List Transaction}
    (h : deserializeTransactions blake3 header headerString serializedBlock = .ok list) :
    list.length = header.transactionSizes.length := by
  have hlist := mapError_eq_ok.mp h
  obtain ⟨less, h₁⟩ := after_bind hlist
  have h₃ := after_check (after_check h₁)
  cases hsizes : header.transactionSizes with
  | nil =>
    rw [hsizes, List.isEmpty_nil, if_pos rfl] at h₃
    dsimp only at h₃
    split_ifs at h₃
    · cases h₃
    · cases h₃
      rfl
  | cons size sizes =>
    rw [hsizes] at h₃
    have h₅ := after_check (after_check h₃)
    exact length_of_deserializeFrom h₅

theorem of_parseBlock {header : CommittedBlockHeader}
    (h : r.parseBlock serializedBlock = .ok (header, block)) :
    ∃ list : List Transaction, list.length = header.transactionSizes.length ∧
      block.toProposalFields = (header.fields list).rooted ∧
      block.thresholdSig = header.thresholdSig ∧ block.daSig = header.daSig := by
  obtain ⟨brace, h₁⟩ := after_bind h
  have h₃ := after_check (after_check h₁)
  obtain ⟨headerStr, h₄⟩ := after_bind h₃
  have h₅ := after_check h₄
  obtain ⟨header', -, h₆⟩ := bind_eq_ok.mp h₅
  obtain ⟨list, hlist, h₇⟩ := bind_eq_ok.mp h₆
  obtain ⟨made, hmade, h₈⟩ := bind_eq_ok.mp h₇
  cases h₈
  obtain ⟨hmake, hthreshold, hda⟩ := CommittedBlock.of_make_eq_ok (mapError_eq_ok.mp hmade)
  exact ⟨list, length_of_deserializeTransactions (mapError_eq_ok.mp hlist),
    BlockProposal.of_make_eq_ok hmake, hthreshold, hda⟩

end Checked

end BlockReader

end SkaleConsensus.Block
