import SkaleConsensus.Block.Wire

/-! Proposals written as bytes, and read again.

`serializeProposal` writes the header with the hash and the signature, then the
transactions, each with the first bytes of its hash. The printer of the JSON library is a
parameter. A proposal whose header the library reads as it printed it is read back whole,
signature included. -/
namespace SkaleConsensus.Block
open Library Crypto TransactionList

/-! ### Writing -/

section Write
variable (blake3 : Bytes → Hash)

def Transaction.getSerializedSize (t : Transaction) (writePartialHash : Bool) : ℕ :=
  if writePartialHash then t.data.length + PARTIAL_HASH_LEN else t.data.length

def Transaction.serialize (t : Transaction) (writePartialHash : Bool) : Bytes :=
  t.data ++ if writePartialHash then t.partialHash blake3 else []

/-- `TransactionList::serialize`. The vector it keeps is always asked for with partial
hashes, if the list is that of a proposal. -/
def TransactionList.serialize (list : List Transaction) (writeTxPartialHash : Bool) : Bytes :=
  60 :: list.flatMap (Transaction.serialize blake3 · writeTxPartialHash) ++ [62]

/-- `BlockProposal::createProposalHeader`. -/
def BlockProposal.createProposalHeader (p : BlockProposal) : BlockProposalHeader where
  proposerIndex := p.proposerIndex
  proposerNodeID := p.proposerNodeID
  blockID := p.blockID
  schainID := p.schainID
  timeStamp := p.timeStamp
  timeStampMs := p.timeStampMs
  blockHash := toHex (p.hash blake3)
  signature := p.signature
  stateRoot := p.stateRoot
  transactionSizes := p.transactionList.map (Transaction.getSerializedSize · true)

/-- The members that `addFields` adds, after the type. -/
def BlockProposalHeader.members (h : BlockProposalHeader) : List (String × Json) :=
  [("type", .string (textBytes "Blck")), ("schainID", .number (.ofNat h.schainID)),
    ("proposerIndex", .number (.ofNat h.proposerIndex)),
    ("proposerNodeID", .number (.ofNat h.proposerNodeID)), ("blockID", .number (.ofNat h.blockID)),
    ("hash", .string h.blockHash), ("sig", .string h.signature),
    ("sizes", .array (h.transactionSizes.map fun size => .number (.ofNat size))),
    ("timeStamp", .number (.ofNat h.timeStamp)), ("timeStampMs", .number (.ofNat h.timeStampMs)),
    ("sr", .string (textBytes (toString h.stateRoot.toNat)))]

def BlockProposalHeader.addFields (h : BlockProposalHeader) : Json := .object h.members

variable (dump : Json → Bytes)

/-- `BasicHeader::serializeToString`, for a header with these fields. -/
def fieldsToString (timeStamp : ℕ) (fields : Json) : Except String Bytes := do
  checkState (decide (0 < timeStamp)) "timeStamp > 0"
  let s := dump fields
  checkState (decide (16 < s.length)) "s.size() > 16"
  return s

def serializeToString (h : BlockProposalHeader) : Except String Bytes :=
  fieldsToString dump h.timeStamp h.addFields

/-- The buffer that `BasicHeader::toBuffer` makes of a header. -/
def headerBuffer (s : Bytes) : Except String Bytes := do
  checkArgument (decide (s.length + 8 ≤ MAX_BUFFER_SIZE)) "_size <= MAX_BUFFER_SIZE"
  let buf := leBytes 8 s.length ++ s
  checkState (decide (10 ≤ buf.length)) "buf->getCounter() >= 10"
  return buf

def toBuffer (h : BlockProposalHeader) : Except String Bytes :=
  serializeToString dump h >>= headerBuffer

/-- `serializeTransactionsAndCompleteSerialization` behind the header. -/
def completeSerialization (buf : Bytes) (transactionList : List Transaction) :
    Except String Bytes := do
  checkState (buf[8]? == some 123) "buf->getBuf()->at( sizeof( uint64_t ) ) == '\x7b'"
  checkState (buf.getLast? == some 125) "buf->getBuf()->at( buf->getCounter() - 1 ) == '\x7d'"
  let serializedList := TransactionList.serialize blake3 transactionList true
  checkState (serializedList.head? == some 60) "serializedList->front() == '<'"
  checkState (serializedList.getLast? == some 62) "serializedList->back() == '>'"
  let block := buf ++ serializedList
  if transactionList.isEmpty then
    checkState (block.length == buf.length + 2) "block->size() == buf->getCounter() + 2"
  checkState (block[8]? == some 123) "block->at( sizeof( uint64_t ) ) == '\x7b'"
  checkState (block.getLast? == some 62) "block->back() == '>'"
  return block

def serializeTransactionsAndCompleteSerialization (h : BlockProposalHeader)
    (transactionList : List Transaction) : Except String Bytes := do
  let buf ← toBuffer dump h
  completeSerialization blake3 buf transactionList

/-- `serializeProposal` of a proposal that keeps no bytes yet. -/
def BlockProposal.serializeProposal (p : BlockProposal) : Except String Bytes :=
  serializeTransactionsAndCompleteSerialization blake3 dump (p.createProposalHeader blake3)
    p.transactionList

def BlockProposal.headerText (p : BlockProposal) : Bytes :=
  dump (p.createProposalHeader blake3).addFields

/-- What is written if no check throws. -/
def BlockProposal.bytes (p : BlockProposal) : Bytes :=
  leBytes 8 (p.headerText blake3 dump).length ++ p.headerText blake3 dump ++
    TransactionList.serialize blake3 p.transactionList true

end Write

/-- A printer for headers: members in the order in which they were added. -/
def printAtom : Json → Bytes
  | .number n => textBytes (toString n.toNat)
  | .string text => 34 :: text ++ [34]
  | _ => textBytes "null"

def printMember (member : String × Json) : Bytes :=
  34 :: textBytes member.1 ++ [34, 58] ++
    match member.2 with
    | .array items => 91 :: List.intercalate [44] (items.map printAtom) ++ [93]
    | value => printAtom value

def printHeader : Json → Bytes
  | .object members => 123 :: List.intercalate [44] (members.map printMember) ++ [125]
  | value => printAtom value

/-! ### Reading what was written -/

/-- The JSON library and Boost read a header of `p` from `text` as they printed it, and what is
written fits a vector. -/
structure Printed (r : BlockReader) (p : BlockProposal) (text : Bytes) (fields : Json) : Prop where
  head : text.head? = some 123
  last : text.getLast? = some 125
  long : 16 < text.length
  json : r.json text = some fields
  u256 : r.u256 (textBytes (toString p.stateRoot.toNat)) = some p.stateRoot
  fits : (leBytes 8 text.length ++ text ++
    TransactionList.serialize r.cm.blake3 p.transactionList true).length < 2 ^ 64

/-- The header of a proposal is read as it was printed, and is not longer than a buffer may be. -/
structure Legible (r : BlockReader) (dump : Json → Bytes) (p : BlockProposal) : Prop extends
    Printed r p (p.headerText r.cm.blake3 dump) (p.createProposalHeader r.cm.blake3).addFields where
  short : (p.headerText r.cm.blake3 dump).length + 8 ≤ MAX_BUFFER_SIZE

/-- The signature of `p` verifies for its own hash; a default block has none. -/
def Verified (r : BlockReader) (p : BlockProposal) : Prop :=
  p.proposerIndex ≠ 0 →
    p.verifyProposalECDSA r.cm (toHex (p.hash r.cm.blake3)) p.signature = .ok ()

theorem verified_of_verifyProposalECDSA {r : BlockReader} {p : BlockProposal} {hashStr : Bytes}
    (h : p.verifyProposalECDSA r.cm hashStr p.signature = .ok ()) : Verified r p := by
  intro _
  rwa [BlockProposal.toHex_hash_of_verifyProposalECDSA h]

section Transactions
variable {blake3 : Bytes → Hash} {writePartialHash : Bool}

theorem Transaction.length_serialize (hdigest : Hasher blake3) (t : Transaction) :
    (t.serialize blake3 writePartialHash).length = t.getSerializedSize writePartialHash := by
  cases writePartialHash with
  | false => exact congrArg List.length (List.append_nil t.data)
  | true =>
    show (t.data ++ (blake3 t.data).take PARTIAL_HASH_LEN).length =
      t.data.length + PARTIAL_HASH_LEN
    rw [List.length_append, List.length_take, hdigest]
    rfl

theorem Transaction.getSerializedSize_pos (t : Transaction) :
    0 < t.getSerializedSize writePartialHash := by
  have hpos := List.length_pos_of_ne_nil t.nonempty
  unfold getSerializedSize
  split_ifs <;> omega

/-- A transaction is made of what it was written as. -/
theorem Transaction.make_serialize (hdigest : Hasher blake3) (t : Transaction) :
    Transaction.make blake3 (t.serialize blake3 writePartialHash) writePartialHash = .ok t := by
  cases writePartialHash with
  | false =>
    have hdata : t.serialize blake3 false = t.data := List.append_nil t.data
    rw [hdata]
    exact dif_pos t.nonempty
  | true =>
    have hlength := @Transaction.length_serialize blake3 true hdigest t
    have hsize : t.getSerializedSize true = t.data.length + PARTIAL_HASH_LEN := rfl
    have hlong : PARTIAL_HASH_LEN < (t.serialize blake3 true).length := by
      have hpos := List.length_pos_of_ne_nil t.nonempty
      omega
    have hcut : (t.serialize blake3 true).length - PARTIAL_HASH_LEN = t.data.length := by omega
    have htake : (t.serialize blake3 true).take
        ((t.serialize blake3 true).length - PARTIAL_HASH_LEN) = t.data := by
      rw [hcut]
      exact List.take_left
    have hdrop : (t.serialize blake3 true).drop
        ((t.serialize blake3 true).length - PARTIAL_HASH_LEN) = t.partialHash blake3 := by
      rw [hcut]
      exact List.drop_left
    have hsame : (⟨_, take_ne_nil hlong⟩ : Transaction) = t := by
      cases t
      simp only [htake]
    unfold Transaction.make
    rw [if_pos rfl, dif_pos hlong, hsame, hdrop]
    exact if_pos rfl

theorem Transaction.deserialize_serialize (hdigest : Hasher blake3) (t : Transaction)
    (before after : Bytes) :
    Transaction.deserialize blake3 (before ++ t.serialize blake3 writePartialHash ++ after)
      before.length (t.getSerializedSize writePartialHash) writePartialHash = .ok t := by
  have hlength := @Transaction.length_serialize blake3 writePartialHash hdigest t
  have htotal : before.length + t.getSerializedSize writePartialHash ≤
      (before ++ t.serialize blake3 writePartialHash ++ after).length := by
    rw [List.length_append, List.length_append]
    omega
  unfold Transaction.deserialize slice
  refine checkArgument_bind_eq_ok.mpr ⟨decide_eq_true ?_, ?_⟩
  · exact (Nat.mod_le _ _).trans htotal
  refine checkArgument_bind_eq_ok.mpr ⟨decide_eq_true t.getSerializedSize_pos, ?_⟩
  refine bind_eq_ok.mpr
    ⟨t.serialize blake3 writePartialHash, ?_, Transaction.make_serialize hdigest t⟩
  rw [if_neg (Nat.not_lt.mpr htotal), List.append_assoc, List.drop_left, ← hlength, List.take_left]
  rfl

/-- The loop over the sizes takes the list apart where it was put together. -/
theorem deserializeFrom_serialize (hdigest : Hasher blake3)
    (list : List Transaction) (before after : Bytes) :
    deserializeFrom blake3
      (before ++ list.flatMap (Transaction.serialize blake3 · writePartialHash) ++ after)
      writePartialHash before.length
      (list.map (Transaction.getSerializedSize · writePartialHash)) = .ok list := by
  induction list generalizing before with
  | nil => rfl
  | cons t list ih =>
    have hnext := ih (before ++ t.serialize blake3 writePartialHash)
    rw [List.length_append, Transaction.length_serialize hdigest] at hnext
    rw [List.flatMap_cons, List.map_cons]
    refine checkArgument_bind_eq_ok.mpr ⟨decide_eq_true t.getSerializedSize_pos, ?_⟩
    refine bind_eq_ok.mpr ⟨t, mapError_eq_ok.mpr ?_, bind_eq_ok.mpr ⟨list, ?_, rfl⟩⟩
    · have hhere := @Transaction.deserialize_serialize blake3 writePartialHash hdigest t before
        (list.flatMap (Transaction.serialize blake3 · writePartialHash) ++ after)
      simpa only [List.append_assoc] using hhere
    · rwa [List.append_assoc before] at hnext

theorem TransactionList.length_serialize (list : List Transaction) :
    (TransactionList.serialize blake3 list writePartialHash).length =
      (list.flatMap (Transaction.serialize blake3 · writePartialHash)).length + 2 := by
  unfold TransactionList.serialize
  rw [List.cons_append, List.length_cons, List.length_append]
  rfl

theorem TransactionList.getLast?_serialize (list : List Transaction) :
    (TransactionList.serialize blake3 list writePartialHash).getLast? = some 62 :=
  List.getLast?_concat

/-- The checks of `TransactionList::deserialize` pass for bytes that `serialize` wrote, with or
without partial hashes, if they are long enough. -/
theorem TransactionList.deserialize_eq_deserializeFrom (t : Transaction) (list : List Transaction)
    (before : Bytes) (written : Bool)
    (hlong : (if writePartialHash then PARTIAL_HASH_LEN + 2 else 2) <
      (TransactionList.serialize blake3 (t :: list) written).length) :
    TransactionList.deserialize blake3
      ((t :: list).map (Transaction.getSerializedSize · writePartialHash))
      (before ++ TransactionList.serialize blake3 (t :: list) written) before.length
      writePartialHash =
    deserializeFrom blake3 (before ++ TransactionList.serialize blake3 (t :: list) written)
      writePartialHash (before.length + 1)
      ((t :: list).map (Transaction.getSerializedSize · writePartialHash)) := by
  have hless : byteAt (before ++ TransactionList.serialize blake3 (t :: list) written)
      before.length = .ok 60 := by
    unfold byteAt TransactionList.serialize
    rw [List.cons_append, List.getElem?_append_right le_rfl, Nat.sub_self]
    rfl
  have hmore : (before ++ TransactionList.serialize blake3 (t :: list) written).getLast? =
      some 62 := by
    rw [List.getLast?_append, TransactionList.getLast?_serialize]
    rfl
  have hsizes : ((t :: list).map (Transaction.getSerializedSize · writePartialHash)).all
      (fun size => decide (0 < size)) = true := by
    refine List.all_eq_true.mpr fun size hsize => ?_
    obtain ⟨u, -, rfl⟩ := List.mem_map.mp hsize
    exact decide_eq_true u.getSerializedSize_pos
  have hlength : decide ((if writePartialHash then PARTIAL_HASH_LEN + 2 else 2) <
      (before ++ TransactionList.serialize blake3 (t :: list) written).length - before.length) =
      true := by
    rw [List.length_append, Nat.add_sub_cancel_left]
    exact decide_eq_true hlong
  unfold TransactionList.deserialize
  rw [hless, hmore, hsizes]
  dsimp only
  rw [hlength]
  rfl

/-- `TransactionList::deserialize` undoes `serialize`, behind whatever was written before. -/
theorem TransactionList.deserialize_serialize (hdigest : Hasher blake3)
    (list : List Transaction) (before : Bytes) :
    TransactionList.deserialize blake3
      (list.map (Transaction.getSerializedSize · writePartialHash))
      (before ++ TransactionList.serialize blake3 list writePartialHash) before.length
      writePartialHash = .ok list := by
  cases list with
  | nil =>
    refine bind_eq_ok.mpr ⟨60, ?_, bind_eq_ok.mpr ⟨(), rfl, bind_eq_ok.mpr ⟨(), ?_, ?_⟩⟩⟩
    · unfold byteAt
      rw [List.getElem?_append_right le_rfl, Nat.sub_self]
      rfl
    · rw [checkArgument_eq_ok, List.getLast?_append, TransactionList.getLast?_serialize]
      rfl
    · rw [List.map_nil, List.isEmpty_nil, if_pos rfl, List.length_append, Nat.add_sub_cancel_left]
      rfl
  | cons t list =>
    rw [deserialize_eq_deserializeFrom]
    · have hread := @deserializeFrom_serialize blake3 writePartialHash hdigest (t :: list)
        (before ++ [60]) [62]
      rw [List.length_append, List.append_assoc, List.append_assoc] at hread
      exact hread
    · have hpos := List.length_pos_of_ne_nil t.nonempty
      rw [length_serialize, List.flatMap_cons, List.length_append,
        Transaction.length_serialize hdigest]
      unfold Transaction.getSerializedSize
      split_ifs <;> omega

end Transactions

section Header
variable {r : BlockReader}

theorem mapM_toUint64 (sizes : List ℕ) (h : ∀ size ∈ sizes, size < 2 ^ 64) :
    (sizes.map fun size => Json.number (.ofNat size)).mapM Json.toUint64 = .ok sizes := by
  induction sizes with
  | nil => rfl
  | cons size sizes ih =>
    have hsize : Json.toUint64 (.number (.ofNat size)) = .ok size := by
      show Except.ok (UInt64.ofNat size).toNat = .ok size
      rw [UInt64.toNat_ofNat', Nat.mod_eq_of_lt (h size List.mem_cons_self)]
    rw [List.map_cons, List.mapM_cons]
    refine bind_eq_ok.mpr ⟨size, hsize, bind_eq_ok.mpr ⟨sizes, ?_, rfl⟩⟩
    exact ih fun s hs => h s (List.mem_cons_of_mem _ hs)

/-- The constructor of the header undoes `addFields`, whatever is added after it. -/
theorem blockProposalHeader_members {p : BlockProposal} (rest : List (String × Json))
    (hroot : r.u256 (textBytes (toString p.stateRoot.toNat)) = some p.stateRoot)
    (hsizes : ∀ t ∈ p.transactionList, t.getSerializedSize true < 2 ^ 64) :
    r.blockProposalHeader (.object ((p.createProposalHeader r.cm.blake3).members ++ rest)) =
      .ok (p.createProposalHeader r.cm.blake3) := by
  obtain ⟨hschain, hnode, hblock, hindex, -, hstamp, hms⟩ := p.fits
  have hlist : ∀ size ∈ p.transactionList.map (Transaction.getSerializedSize · true),
      size < 2 ^ 64 := by
    intro size hsize
    obtain ⟨t, ht, rfl⟩ := List.mem_map.mp hsize
    exact hsizes t ht
  unfold BlockReader.blockProposalHeader
  refine bind_eq_ok.mpr ⟨_, Json.getUint64_of_find? rfl hindex, ?_⟩
  refine bind_eq_ok.mpr ⟨_, Json.getUint64_of_find? rfl hnode, ?_⟩
  refine bind_eq_ok.mpr ⟨_, Json.getUint64_of_find? rfl hblock, ?_⟩
  refine bind_eq_ok.mpr ⟨_, Json.getUint64_of_find? rfl hschain, ?_⟩
  refine bind_eq_ok.mpr ⟨_, Json.getUint64_of_find? rfl hstamp, ?_⟩
  refine bind_eq_ok.mpr ⟨_, Json.getUint32_of_find? rfl hms, ?_⟩
  refine bind_eq_ok.mpr ⟨(p.createProposalHeader r.cm.blake3).blockHash, rfl, ?_⟩
  refine bind_eq_ok.mpr ⟨p.signature, rfl, ?_⟩
  refine bind_eq_ok.mpr ⟨textBytes (toString p.stateRoot.toNat), rfl, ?_⟩
  rw [hroot]
  exact bind_eq_ok.mpr ⟨_, rfl, bind_eq_ok.mpr ⟨_, mapM_toUint64 _ hlist, rfl⟩⟩

/-- The header starts behind its length. -/
theorem brace_eq {text : Bytes} (hhead : text.head? = some 123) (rest : Bytes) :
    (leBytes 8 text.length ++ text ++ rest)[8]? = some 123 := by
  have height := length_leBytes 8 text.length
  rw [List.append_assoc, List.getElem?_append_right height.le, height, Nat.sub_self,
    ← List.head?_eq_getElem?, List.head?_append, hhead]
  rfl

/-- A header is taken out of what stands behind its length. -/
theorem extractHeader_eq {text rest : Bytes} (hhead : text.head? = some 123)
    (hlong : 16 < text.length) (hshort : text.length ≤ MAX_BUFFER_SIZE)
    (hless : rest.head? = some 60) (hgreater : rest.getLast? = some 62) :
    extractHeader (leBytes 8 text.length ++ text ++ rest) = .ok text := by
  have hmax : MAX_BUFFER_SIZE + 8 < 2 ^ 64 := by decide
  have height := length_leBytes 8 text.length
  have hprefix : (leBytes 8 text.length ++ text).length = text.length + 8 := by
    rw [List.length_append, height, Nat.add_comm]
  have htotal : (leBytes 8 text.length ++ text ++ rest).length = text.length + 8 + rest.length := by
    rw [List.length_append, hprefix]
  have hsize : fromLeBytes ((leBytes 8 text.length ++ text ++ rest).take 8) = text.length := by
    rw [List.append_assoc, List.take_left' height, fromLeBytes_leBytes]
    exact Nat.mod_eq_of_lt (by omega)
  have hbehind : (leBytes 8 text.length ++ text ++ rest)[text.length + 8]? = some 60 := by
    rw [List.getElem?_append_right hprefix.le, hprefix, Nat.sub_self, ← List.head?_eq_getElem?,
      hless]
  unfold extractHeader
  simp only [hsize]
  rw [if_neg (by omega), if_neg (by rw [Nat.mod_eq_of_lt (by omega)]; omega)]
  refine checkState_bind_eq_ok.mpr ⟨decide_eq_true hshort, ?_⟩
  refine bind_eq_ok.mpr ⟨60, by rw [byteAt, hbehind]; rfl, bind_eq_ok.mpr ⟨(), rfl, ?_⟩⟩
  refine bind_eq_ok.mpr ⟨123, by rw [byteAt, brace_eq hhead]; rfl, bind_eq_ok.mpr ⟨(), rfl, ?_⟩⟩
  refine checkState_bind_eq_ok.mpr ⟨?_, ?_⟩
  · rw [List.getLast?_append, hgreater]
    rfl
  · rw [List.append_assoc, List.drop_left' height, List.take_left]
    rfl

variable {p : BlockProposal}

namespace Printed
variable {text : Bytes} {fields : Json}

theorem deserializeTransactions_eq (hdigest : Hasher r.cm.blake3) (text : Bytes) :
    deserializeTransactions r.cm.blake3 (p.createProposalHeader r.cm.blake3) text
      (leBytes 8 text.length ++ text ++
        TransactionList.serialize r.cm.blake3 p.transactionList true) = .ok p.transactionList := by
  refine mapError_eq_ok.mpr ?_
  have hread := @TransactionList.deserialize_serialize r.cm.blake3 true hdigest p.transactionList
    (leBytes 8 text.length ++ text)
  rw [List.length_append, length_leBytes, Nat.add_comm] at hread
  exact hread

variable (h : Printed r p text fields)
include h

theorem headerBuffer_eq (hshort : text.length + 8 ≤ MAX_BUFFER_SIZE) :
    headerBuffer text = .ok (leBytes 8 text.length ++ text) := by
  have hlong := h.long
  refine checkArgument_bind_eq_ok.mpr ⟨decide_eq_true hshort, ?_⟩
  refine checkState_bind_eq_ok.mpr ⟨decide_eq_true ?_, rfl⟩
  rw [List.length_append, length_leBytes]
  omega

/-- What is written starts and ends as the readers ask. -/
theorem ends (list : List Transaction) :
    (leBytes 8 text.length ++ text ++ TransactionList.serialize r.cm.blake3 list true)[8]? =
        some 123 ∧
      (leBytes 8 text.length ++ text ++ TransactionList.serialize r.cm.blake3 list true).getLast? =
        some 62 := by
  refine ⟨brace_eq h.head _, ?_⟩
  rw [List.getLast?_append, TransactionList.getLast?_serialize]
  rfl

/-- No check throws. -/
theorem completeSerialization_eq (list : List Transaction) :
    completeSerialization r.cm.blake3 (leBytes 8 text.length ++ text) list =
      .ok (leBytes 8 text.length ++ text ++ TransactionList.serialize r.cm.blake3 list true) := by
  obtain ⟨hbrace, hlast⟩ := h.ends list
  generalize hblock : leBytes 8 text.length ++ text ++
    TransactionList.serialize r.cm.blake3 list true = block at hbrace hlast
  have hend : (do
      checkState (block[8]? == some 123) "block->at( sizeof( uint64_t ) ) == '\x7b'"
      checkState (block.getLast? == some 62) "block->back() == '>'"
      return block : Except String Bytes) = .ok block := by
    refine checkState_bind_eq_ok.mpr ⟨beq_iff_eq.mpr hbrace, ?_⟩
    exact checkState_bind_eq_ok.mpr ⟨beq_iff_eq.mpr hlast, rfl⟩
  refine checkState_bind_eq_ok.mpr ⟨beq_iff_eq.mpr ?_, ?_⟩
  · have hbrace := brace_eq h.head []
    rwa [List.append_nil] at hbrace
  refine checkState_bind_eq_ok.mpr ⟨?_, ?_⟩
  · rw [List.getLast?_append, h.last]
    rfl
  refine bind_eq_ok.mpr ⟨(), rfl, checkState_bind_eq_ok.mpr ⟨?_, ?_⟩⟩
  · exact beq_iff_eq.mpr (TransactionList.getLast?_serialize list)
  dsimp only
  rw [hblock]
  split_ifs with hnone
  · refine checkState_bind_eq_ok.mpr ⟨?_, hend⟩
    rw [← hblock, List.isEmpty_iff.mp hnone, List.length_append]
    exact beq_self_eq_true _
  · exact hend

theorem size_lt (hdigest : Hasher r.cm.blake3)
    {t : Transaction} (ht : t ∈ p.transactionList) : t.getSerializedSize true < 2 ^ 64 := by
  have hsub : (t.serialize r.cm.blake3 true).length ≤
      (p.transactionList.flatMap (Transaction.serialize r.cm.blake3 · true)).length := by
    rw [List.flatMap_def]
    exact (List.sublist_flatten_of_mem
      (List.mem_map_of_mem (f := (Transaction.serialize r.cm.blake3 · true)) ht)).length_le
  have hfits := h.fits
  rw [List.length_append, length_serialize] at hfits
  rw [Transaction.length_serialize hdigest] at hsub
  omega

theorem ne_nil : text ≠ [] := by
  have hlong := h.long
  exact List.ne_nil_of_length_pos (by omega)

theorem parseBlockHeader_eq {α : Type} (construct : Json → Except String α) :
    r.parseBlockHeader construct text = construct fields := by
  have hlong := h.long
  have hempty : (!text.isEmpty) = true := not_isEmpty h.ne_nil
  have htwo : 2 < text.length := by omega
  unfold BlockReader.parseBlockHeader
  rw [hempty, decide_eq_true htwo, h.head, h.last, h.json]
  rfl

end Printed

variable {dump : Json → Bytes} {bytes : Bytes}

namespace Legible

/-- No check throws. -/
theorem serializeProposal_eq (h : Legible r dump p) :
    p.serializeProposal r.cm.blake3 dump = .ok (p.bytes r.cm.blake3 dump) := by
  refine bind_eq_ok.mpr ⟨_, bind_eq_ok.mpr ⟨p.headerText r.cm.blake3 dump, ?_,
    h.headerBuffer_eq h.short⟩, h.completeSerialization_eq p.transactionList⟩
  refine checkState_bind_eq_ok.mpr ⟨decide_eq_true ?_, ?_⟩
  · exact (Nat.zero_le _).trans_lt p.modern
  · exact checkState_bind_eq_ok.mpr ⟨decide_eq_true h.long, rfl⟩

/-- A proposal is read back, if its signature is not asked for or verifies. -/
theorem deserializeProposal_eq (h : Legible r dump p)
    (hdigest : Hasher r.cm.blake3) {verifySig : Bool}
    (hverified : verifySig = true → Verified r p) :
    r.deserializeProposal (p.bytes r.cm.blake3 dump) verifySig = .ok p := by
  have hheader := blockProposalHeader_members [] h.u256 fun t ht => h.size_lt hdigest ht
  rw [List.append_nil] at hheader
  have hmake : BlockProposal.make ((p.createProposalHeader r.cm.blake3).fields p.transactionList) =
      .ok p :=
    BlockProposal.make_eq_ok_iff.mpr p.rooted_eq.symm
  have hshort := h.short
  unfold BlockReader.deserializeProposal
  refine bind_eq_ok.mpr ⟨_, extractHeader_eq h.head h.long (by omega) rfl
    (TransactionList.getLast?_serialize p.transactionList), ?_⟩
  refine checkState_bind_eq_ok.mpr ⟨not_isEmpty h.ne_nil, ?_⟩
  refine bind_eq_ok.mpr ⟨_, mapError_eq_ok.mpr ((h.parseBlockHeader_eq _).trans hheader),
    bind_eq_ok.mpr ⟨_, Printed.deserializeTransactions_eq hdigest _, ?_⟩⟩
  refine checkState_bind_eq_ok.mpr ⟨not_isEmpty p.signed, ?_⟩
  refine bind_eq_ok.mpr ⟨p, hmake, ?_⟩
  split_ifs with hverify
  · obtain ⟨hverifySig, hindex⟩ := (Bool.and_eq_true _ _).mp hverify
    have hsigned : p.proposerIndex ≠ 0 := bne_iff_ne.mp hindex
    exact bind_eq_ok.mpr ⟨(), mapError_eq_ok.mpr (hverified hverifySig hsigned), rfl⟩
  · rfl

/-- A proposal that was verified is read back, with its signature. -/
theorem deserializeProposal_bytes (h : Legible r dump p) (hdigest : Hasher r.cm.blake3)
    (hverified : Verified r p) :
    r.deserializeProposal (p.bytes r.cm.blake3 dump) true = .ok p :=
  h.deserializeProposal_eq hdigest fun _ => hverified

end Legible

theorem ends_of_extractHeader {header : Bytes} (h : extractHeader bytes = .ok header) :
    bytes[8]? = some 123 ∧ bytes.getLast? = some 62 := by
  unfold extractHeader at h
  split at h
  · cases h
  dsimp only at h
  split at h
  · cases h
  have h₁ := after_check h
  obtain ⟨less, h₂⟩ := after_bind h₁
  have h₃ := after_check h₂
  obtain ⟨brace, hbyte, h₄⟩ := bind_eq_ok.mp h₃
  obtain ⟨hbrace, h₅⟩ := checkState_bind_eq_ok.mp h₄
  obtain ⟨hlast, -⟩ := checkState_bind_eq_ok.mp h₅
  refine ⟨?_, beq_iff_eq.mp hlast⟩
  rw [beq_iff_eq.mp hbrace] at hbyte
  unfold byteAt at hbyte
  split at hbyte
  · rename_i b hget
    cases hbyte
    exact hget
  · cases hbyte

/-- What `serializeProposal` has checked when it returns bytes. -/
theorem ends_of_serializeProposal {blake3 : Bytes → Hash}
    (h : p.serializeProposal blake3 dump = .ok bytes) :
    bytes[8]? = some 123 ∧ bytes.getLast? = some 62 := by
  obtain ⟨buf, h₁⟩ := after_bind h
  have h₅ := after_check (after_check (after_check (after_check h₁)))
  have hchecked : ∀ block : Bytes, (do
      checkState (block[8]? == some 123) "block->at( sizeof( uint64_t ) ) == '\x7b'"
      checkState (block.getLast? == some 62) "block->back() == '>'"
      return block : Except String Bytes) = .ok bytes →
      bytes[8]? = some 123 ∧ bytes.getLast? = some 62 := by
    intro block hblock
    obtain ⟨hbrace, h₆⟩ := checkState_bind_eq_ok.mp hblock
    obtain ⟨hlast, h₇⟩ := checkState_bind_eq_ok.mp h₆
    cases h₇
    exact ⟨beq_iff_eq.mp hbrace, beq_iff_eq.mp hlast⟩
  split_ifs at h₅
  · have h₆ := after_check h₅
    exact hchecked _ h₆
  · exact hchecked _ h₅

/-- What `deserialize` has checked when it returns a proposal. -/
theorem of_deserializeProposal (h : r.deserializeProposal bytes true = .ok p) :
    bytes[8]? = some 123 ∧ bytes.getLast? = some 62 ∧ Verified r p := by
  obtain ⟨headerStr, hextract, h₁⟩ := bind_eq_ok.mp h
  have h₂ := after_check h₁
  obtain ⟨header, h₃⟩ := after_bind h₂
  obtain ⟨list, h₄⟩ := after_bind h₃
  have h₅ := after_check h₄
  obtain ⟨made, hmake, h₆⟩ := bind_eq_ok.mp h₅
  obtain ⟨hbrace, hlast⟩ := ends_of_extractHeader hextract
  refine ⟨hbrace, hlast, ?_⟩
  have hfields := BlockProposal.of_make_eq_ok hmake
  split_ifs at h₆ with hsigned
  · obtain ⟨⟨⟩, hverify, hreturn⟩ := bind_eq_ok.mp h₆
    cases hreturn
    have hsignature : p.signature = header.signature := by rw [hfields]; rfl
    have hverified := mapError_eq_ok.mp hverify
    rw [← hsignature] at hverified
    exact verified_of_verifyProposalECDSA hverified
  · cases h₆
    intro hindex
    refine absurd ?_ hsigned
    rw [hfields] at hindex
    exact bne_iff_ne.mpr hindex

end Header

end SkaleConsensus.Block
