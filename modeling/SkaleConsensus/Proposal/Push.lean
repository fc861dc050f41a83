import SkaleConsensus.Block.Binding
import SkaleConsensus.Library.Reconcile
import SkaleConsensus.Network.Io
import SkaleConsensus.Proposal.Clock

/-! Pushing a proposal to another node.

After the answer to its header the proposer sends the partial hashes of its transactions. The
server looks them up among the transactions it knows, one after the other, asks for those it did
not find, and puts the list together. The proposer sends all transactions of the proposal whose
partial hashes were asked for, and insists that they are as many as were asked for.

The pool of known transactions changes while it is looked at, so that a transaction that stands
twice in the proposal can be missing at its first place and be found at its second. It is then sent
twice and was asked for once. `completes_iff` says which runs end with `CONNECTION_SUCCESS`. -/
namespace SkaleConsensus.Proposal
open Library Block Crypto Network Reconcile

/-! ### Headers -/

/-- The members of a `Header`, before those of its kind. -/
def headerOf (type : String) (status substatus : UInt64) (fields : List (String × Json)) : Json :=
  .object ([("type", .string (textBytes type)), ("status", .number status),
    ("substatus", .number substatus)] ++ fields)

/-- Nobody sets the status: it is `CONNECTION_ERROR`, `CONNECTION_ERROR_UNKNOWN_SERVER_ERROR`. -/
def missingTransactionsRequestHeader (count : ℕ) : Json :=
  headerOf "MsngTxsReq" 5 3 [("count", .number (.ofNat count))]

def missingTransactionsResponseHeader (sizes : List ℕ) : Json :=
  headerOf "MsngTxsRsp" 5 3 [("sizes", .array (sizes.map fun size => .number (.ofNat size)))]

/-- What SGX makes in `signDAProof`. -/
structure SigShare where
  sigShare : Bytes
  signature : Bytes
  publicKey : Bytes
  publicKeySig : Bytes
deriving DecidableEq, Repr

/-- `FinalProposalResponseHeader` with a share: `CONNECTION_SUCCESS`, `CONNECTION_OK`. -/
def finalProposalResponseHeader (share : SigShare) : Json :=
  headerOf "SigShareRsp" 0 0 [("sss", .string share.sigShare), ("sig", .string share.signature),
    ("pk", .string share.publicKey), ("pks", .string share.publicKeySig)]

section Push
variable (blake3 : Bytes → Hash) (json : Bytes → Option Json) (dump : Json → Bytes)

def createProposalRequestHeader (p : BlockProposal) : BlockProposalRequestHeader where
  schainID := p.schainID
  blockID := p.blockID
  proposerIndex := p.proposerIndex
  proposerNodeID := p.proposerNodeID
  timeStamp := p.timeStamp
  timeStampMs := p.timeStampMs
  hash := toHex (p.hash blake3)
  signature := p.signature
  txCount := p.transactionList.length
  stateRoot := p.stateRoot

def partialHashesOf (p : BlockProposal) : List Bytes :=
  p.transactionList.map (Transaction.partialHash blake3)

/-- `createPartialHashesList`, as it is written to the socket. -/
def createPartialHashesList (p : BlockProposal) : Bytes := (partialHashesOf blake3 p).flatten

/-! ### The proposer -/

def readMissingTransactionsRequestHeader (stream : Bytes) : Except String (ℕ × Bytes) := do
  let (js, stream) ← readJsonHeader json "Read missing trans request" stream
  let _ ← js.getUint64 "status"
  let _ ← js.getUint64 "substatus"
  let count ← js.getUint64 "count"
  return (count, stream)

def readMissingHashes (count : ℕ) (stream : Bytes) : Except String (List Bytes × Bytes) := do
  checkArgument (decide (0 < count)) "_count > 0"
  let (buffer, stream) ← (readBytes (count * PARTIAL_HASH_LEN) stream).mapError
    fun _ => "Could not read partial data hashes"
  return ((List.range count).map (block PARTIAL_HASH_LEN buffer), stream)

/-- `sendBlockProposal` from the partial hashes to the final header: what it writes, and what of
the stream is left. -/
def sendMissingTransactions (p : BlockProposal) (stream : Bytes) :
    Except String (Bytes × Bytes) := do
  let (count, stream) ← (readMissingTransactionsRequestHeader json stream).mapError
    fun _ => "Could not read missing transactions request header"
  if count = 0 then return ([], stream)
  let (missingHashes, stream) ← (readMissingHashes count stream).mapError
    fun _ => "Could not read missing hashes"
  let missingTransactions :=
    selected (Transaction.partialHash blake3) missingHashes p.transactionList
  if missingTransactions.length ≠ count then
    throw ("Check failed::Transactions:" ++ toString missingTransactions.length ++ ":" ++
      toString count)
  let header ← (headerToBuffer dump (missingTransactionsResponseHeader
    (missingTransactions.map (Transaction.getSerializedSize · false)))).mapError
    fun _ => "Proposal: unexpected server disconnect writing missing txs response header"
  return (header ++ TransactionList.serialize blake3 missingTransactions false, stream)

/-- The status that `sendBlockProposal` gets, before it checks the share. -/
def readAndProcessFinalProposalResponseHeader (stream : Bytes) : Except String (ℕ × ℕ) := do
  let (js, _) ← readJsonHeader json "Read final response header" stream
  let status ← js.getUint64 "status"
  let subStatus ← js.getUint64 "substatus"
  if status = 0 then
    let sigShare ← js.getString "sss"
    let _ ← js.getString "sig"
    let _ ← js.getString "pk"
    let _ ← js.getString "pks"
    checkArgument (!sigShare.isEmpty) "!_sigShare.empty()"
    return (0, 0)
  else return (status, subStatus)

/-! ### The server -/

def readPartialHashes (maxTransactionsPerBlock txCount : ℕ) (stream : Bytes) :
    Except String (List Bytes × Bytes) := do
  if maxTransactionsPerBlock < txCount then throw "Too many transactions"
  if txCount ≠ 0 then
    let (partialHashes, stream) ← readBytes (txCount * PARTIAL_HASH_LEN) stream
    return ((List.range txCount).map (block PARTIAL_HASH_LEN partialHashes), stream)
  else return ([], stream)

/-- The comparison of the JSON library with the number zero: values of other kinds are ordered by
their kind. -/
def aboveZero : Json → Bool
  | .null | .boolean _ => false
  | .number x => decide (0 < x)
  | _ => true

/-- The sizes in a `MissingTransactionsResponseHeader`. -/
def missingTransactionSizes (js : Json) : Except String (List ℕ) := do
  checkState (aboveZero js) "missingTransactionsResponseHeader > 0"
  match js with
  | .object members =>
    match members.lookup "sizes" with
    | some (.array jsonSizes) => jsonSizes.mapM Json.toUint64
    | _ => throw "jsonSizes is not an array"
  | _ => throw "cannot use operator[] with a string argument"

/-- `readMissingTransactions`, with the header before them. -/
def readMissingTransactions (stream : Bytes) : Except String (Bytes → Option Transaction) := do
  let (js, stream) ← readJsonHeader json "Read missing trans response" stream
  let transactionSizes ← missingTransactionSizes js
  let (serializedTransactions, _) ←
    (readBytes ((2 + transactionSizes.sum) % 2 ^ 64) stream).mapError
      fun _ => "Could not read serialized exceptions"
  let trs ← TransactionList.deserialize blake3 transactionSizes serializedTransactions 0 false
  return received (Transaction.partialHash blake3) trs

/-- `processProposalRequest` from what was found to the list of transactions, against
`sendBlockProposal`: the list, and what is left for the proposer to read. -/
def askForMissing (looked : List (Bytes × Option Transaction)) (stream : Bytes)
    (p : BlockProposal) : Except String (List Transaction × Bytes) := do
  let header ← (headerToBuffer dump (missingTransactionsRequestHeader
    (missing looked).length)).mapError
    fun _ => "Could not send missing hashes request requestHeader"
  let (answer, unread) ←
    sendMissingTransactions blake3 json dump p (header ++ (missing looked).flatten)
  let missingTransactions ←
    if (missing looked).length = 0 then pure fun _ => none
    else readMissingTransactions blake3 json (stream ++ answer)
  match rebuilt missingTransactions looked with
  | none => throw "State check failed::false"
  | some transactions => return (transactions, unread)

/-- The same from the partial hashes on. `known` is the pool at each of the lookups of
`getPresentAndMissingTransactions`. -/
def exchangeTransactions (maxTransactionsPerBlock : ℕ) (known : ℕ → Bytes → Option Transaction)
    (h : BlockProposalRequestHeader) (p : BlockProposal) :
    Except String (List Transaction × Bytes) := do
  let (partialHashes, stream) ←
    (readPartialHashes maxTransactionsPerBlock h.txCount
      (createPartialHashesList blake3 p)).mapError fun _ => "Could not read partial hashes"
  askForMissing blake3 json dump (lookups known partialHashes) stream p

/-- The final header, sent and read. One without a share is not complete. -/
def sendFinalHeader (share : SigShare) (response : Response) (unread : Bytes) :
    Except String (ℕ × ℕ) := do
  checkArgument (decide (response.1 = .success)) "_header->isComplete()"
  checkArgument (!share.sigShare.isEmpty) "!_sigShare.empty()"
  let header ← headerToBuffer dump (finalProposalResponseHeader share)
  readAndProcessFinalProposalResponseHeader json (unread ++ header)

end Push

/-- What a push ends with: the transactions of the server, its status and the proposer's. -/
structure Pushed where
  transactions : List Transaction
  server : Response
  proposer : ℕ × ℕ
deriving DecidableEq, Repr

/-- `processProposalRequest` after the answer to the header, against `sendBlockProposal`. Whatever
the other threads do in between has been done to the state. -/
def push (n : Node) (dump : Json → Bytes) (maxTransactionsPerBlock : ℕ)
    (known : ℕ → Bytes → Option Transaction) (share : SigShare) (p : BlockProposal) :
    EStateM String NodeState Pushed := do
  let h ← MonadExcept.ofExcept
    (blockProposalRequestHeader n (createProposalRequestHeader n.cm.blake3 p).addFields)
  let (transactions, unread) ← MonadExcept.ofExcept
    (exchangeTransactions n.cm.blake3 n.json dump maxTransactionsPerBlock known h p)
  let server ← finishRequest n h transactions
  let proposer ← MonadExcept.ofExcept (sendFinalHeader n.json dump share server unread)
  return ⟨transactions, server, proposer⟩

/-- The server has the proposer's list and both sides end with `CONNECTION_SUCCESS`. -/
def Completes (n : Node) (dump : Json → Bytes) (maxTransactionsPerBlock : ℕ)
    (known : ℕ → Bytes → Option Transaction) (share : SigShare) (p : BlockProposal)
    (s : NodeState) : Prop :=
  ∃ s', (push n dump maxTransactionsPerBlock known share p).run s =
    .ok ⟨p.transactionList, (.success, .ok), (0, 0)⟩ s'

/-! ### Both sides -/

section Exchange
variable {blake3 : Bytes → Hash} {json : Bytes → Option Json} {dump : Json → Bytes}
  {p : BlockProposal} {maxTransactionsPerBlock : ℕ}

theorem length_partialHash (hdigest : Hasher blake3) (t : Transaction) :
    (t.partialHash blake3).length = PARTIAL_HASH_LEN := by
  unfold Transaction.partialHash Transaction.hash
  rw [List.length_take, hdigest]
  rfl

theorem length_of_mem_partialHashesOf (hdigest : Hasher blake3) :
    ∀ hash ∈ partialHashesOf blake3 p, hash.length = PARTIAL_HASH_LEN := by
  intro hash hmem
  obtain ⟨t, -, rfl⟩ := List.mem_map.mp hmem
  exact length_partialHash hdigest t

theorem readBytes_flatten {hashes : List Bytes} (hne : hashes ≠ [])
    (hlength : ∀ hash ∈ hashes, hash.length = PARTIAL_HASH_LEN) :
    readBytes (hashes.length * PARTIAL_HASH_LEN) hashes.flatten = .ok (hashes.flatten, []) := by
  have htotal := length_flatten_blocks hlength
  have hpos : 0 < hashes.flatten.length := by
    rw [htotal]
    exact Nat.mul_pos (List.length_pos_of_ne_nil hne) (by decide)
  have hread := readBytes_append (List.ne_nil_of_length_pos hpos) []
  rwa [List.append_nil, htotal] at hread

theorem readPartialHashes_eq (hdigest : Hasher blake3)
    (hmax : p.transactionList.length ≤ maxTransactionsPerBlock) :
    readPartialHashes maxTransactionsPerBlock p.transactionList.length
      (createPartialHashesList blake3 p) = .ok (partialHashesOf blake3 p, []) := by
  have hlength := length_of_mem_partialHashesOf (p := p) hdigest
  have hcount : p.transactionList.length = (partialHashesOf blake3 p).length :=
    (List.length_map _).symm
  unfold readPartialHashes createPartialHashesList
  rw [hcount] at hmax ⊢
  generalize partialHashesOf blake3 p = hashes at *
  rw [if_neg (Nat.not_lt.mpr hmax)]
  cases hashes with
  | nil => rfl
  | cons hash hashes =>
    rw [if_pos (show (hash :: hashes).length ≠ 0 from nofun)]
    refine bind_eq_ok.mpr ⟨_, readBytes_flatten (List.cons_ne_nil _ _) hlength, ?_⟩
    dsimp only
    rw [map_block_range hlength]
    rfl

theorem le_of_readPartialHashes {txCount : ℕ} {stream : Bytes} {r : List Bytes × Bytes}
    (h : readPartialHashes maxTransactionsPerBlock txCount stream = .ok r) :
    txCount ≤ maxTransactionsPerBlock := by
  unfold readPartialHashes at h
  by_contra hmax
  rw [if_pos (Nat.not_le.mp hmax)] at h
  cases h

/-! ### The request for what is missing -/

section Request
variable {hashes : List Bytes}

theorem readMissingTransactionsRequestHeader_eq {count : ℕ} (hcount : count < 2 ^ 64)
    (hcarried : Carried json dump (missingTransactionsRequestHeader count))
    (hshort : (dump (missingTransactionsRequestHeader count)).length ≤ MAX_HEADER_SIZE)
    (rest : Bytes) :
    readMissingTransactionsRequestHeader json
      (leBytes 8 (dump (missingTransactionsRequestHeader count)).length ++
        dump (missingTransactionsRequestHeader count) ++ rest) = .ok (count, rest) := by
  have hfits := hshort.trans_lt (by decide : MAX_HEADER_SIZE < 2 ^ 64)
  unfold readMissingTransactionsRequestHeader
  refine bind_eq_ok.mpr
    ⟨_, (readJsonHeader_append hcarried _ rest hfits).mpr ⟨hshort, rfl⟩, ?_⟩
  refine bind_eq_ok.mpr ⟨5, rfl, bind_eq_ok.mpr ⟨3, rfl, ?_⟩⟩
  exact bind_eq_ok.mpr ⟨count, Json.getUint64_of_find? rfl hcount, rfl⟩

theorem readMissingHashes_eq (hne : hashes ≠ [])
    (hlength : ∀ hash ∈ hashes, hash.length = PARTIAL_HASH_LEN) :
    readMissingHashes hashes.length hashes.flatten = .ok (hashes, []) := by
  have hpos := List.length_pos_of_ne_nil hne
  unfold readMissingHashes
  refine checkArgument_bind_eq_ok.mpr ⟨decide_eq_true hpos, ?_⟩
  refine bind_eq_ok.mpr ⟨_, mapError_eq_ok.mpr (readBytes_flatten hne hlength), ?_⟩
  dsimp only
  rw [map_block_range hlength]
  rfl

variable (hcount : hashes.length < 2 ^ 64)
  (hcarried : Carried json dump (missingTransactionsRequestHeader hashes.length))
  (hshort : (dump (missingTransactionsRequestHeader hashes.length)).length ≤ MAX_HEADER_SIZE)
include hcount hcarried hshort

/-- Nothing is asked for and nothing is sent. -/
theorem sendMissingTransactions_nil (hnil : hashes = []) :
    sendMissingTransactions blake3 json dump p
      (leBytes 8 (dump (missingTransactionsRequestHeader hashes.length)).length ++
        dump (missingTransactionsRequestHeader hashes.length) ++ hashes.flatten) =
          .ok ([], []) := by
  subst hnil
  unfold sendMissingTransactions
  exact bind_eq_ok.mpr ⟨_, mapError_eq_ok.mpr
    (readMissingTransactionsRequestHeader_eq hcount hcarried hshort _), rfl⟩

/-- What is sent for what is asked for. -/
theorem sendMissingTransactions_eq_ok (hne : hashes ≠ [])
    (hlength : ∀ hash ∈ hashes, hash.length = PARTIAL_HASH_LEN) {r : Bytes × Bytes} :
    sendMissingTransactions blake3 json dump p
      (leBytes 8 (dump (missingTransactionsRequestHeader hashes.length)).length ++
        dump (missingTransactionsRequestHeader hashes.length) ++ hashes.flatten) = .ok r ↔
    (selected (Transaction.partialHash blake3) hashes p.transactionList).length = hashes.length ∧
      ∃ header, headerToBuffer dump (missingTransactionsResponseHeader
          ((selected (Transaction.partialHash blake3) hashes p.transactionList).map
            (Transaction.getSerializedSize · false))) = .ok header ∧
        r = (header ++ TransactionList.serialize blake3
          (selected (Transaction.partialHash blake3) hashes p.transactionList) false, []) := by
  have hzero : ¬ hashes.length = 0 := (List.length_pos_of_ne_nil hne).ne'
  have hrequest := readMissingTransactionsRequestHeader_eq hcount hcarried hshort hashes.flatten
  have hhashes := readMissingHashes_eq hne hlength
  generalize hsent : selected (Transaction.partialHash blake3) hashes p.transactionList = sent
  unfold sendMissingTransactions
  rw [bind_of_ok (mapError_eq_ok.mpr hrequest)]
  dsimp only
  rw [if_neg hzero, bind_of_ok (mapError_eq_ok.mpr hhashes)]
  dsimp only
  rw [hsent]
  by_cases hsame : sent.length = hashes.length
  · rw [if_neg (not_not.mpr hsame), bind_eq_ok, and_iff_right hsame]
    exact exists_congr fun header => and_congr mapError_eq_ok
      ⟨fun h => (Except.ok.inj h).symm, fun h => h ▸ rfl⟩
  · rw [if_pos hsame]
    exact iff_of_false nofun fun h => hsame h.1

end Request

/-! ### The answer -/

abbrev sizesOf (list : List Transaction) : List ℕ :=
  list.map (Transaction.getSerializedSize · false)

theorem length_serialize_false (hdigest : Hasher blake3) (list : List Transaction) :
    (TransactionList.serialize blake3 list false).length = 2 + (sizesOf list).sum := by
  have hsizes : (fun t : Transaction => (t.serialize blake3 false).length) =
      (Transaction.getSerializedSize · false) := by
    funext t
    exact Transaction.length_serialize hdigest t
  rw [TransactionList.length_serialize, List.length_flatMap, hsizes, Nat.add_comm]

theorem readMissingTransactions_eq_ok (hdigest : Hasher blake3)
    {sent : List Transaction} {got : Bytes → Option Transaction} {header : Bytes}
    (hfits : (TransactionList.serialize blake3 sent false).length < 2 ^ 64)
    (hcarried : Carried json dump (missingTransactionsResponseHeader (sizesOf sent)))
    (hheader : headerToBuffer dump (missingTransactionsResponseHeader (sizesOf sent)) =
      .ok header) :
    readMissingTransactions blake3 json
        (header ++ TransactionList.serialize blake3 sent false) = .ok got ↔
      (dump (missingTransactionsResponseHeader (sizesOf sent))).length ≤ MAX_HEADER_SIZE ∧
      received (Transaction.partialHash blake3) sent = got := by
  obtain ⟨-, hbuffer, rfl⟩ := headerToBuffer_eq_ok.mp hheader
  have hsum := length_serialize_false hdigest sent
  have hsizes : ∀ size ∈ sizesOf sent, size < 2 ^ 64 := by
    intro size hsize
    have hle := List.le_sum_of_mem hsize
    omega
  have hparse : missingTransactionSizes (missingTransactionsResponseHeader (sizesOf sent)) =
      .ok (sizesOf sent) :=
    bind_eq_ok.mpr ⟨(), rfl, mapM_toUint64 _ hsizes⟩
  have hbytes : readBytes ((2 + (sizesOf sent).sum) % 2 ^ 64)
      (TransactionList.serialize blake3 sent false) =
      .ok (TransactionList.serialize blake3 sent false, []) := by
    have hread := readBytes_append
      (show TransactionList.serialize blake3 sent false ≠ [] from List.cons_ne_nil _ _) []
    rwa [List.append_nil, ← Nat.mod_eq_of_lt hfits, hsum] at hread
  have hlist : TransactionList.deserialize blake3 (sizesOf sent)
      (TransactionList.serialize blake3 sent false) 0 false = .ok sent :=
    TransactionList.deserialize_serialize hdigest sent []
  have htext := hbuffer.trans_lt (by decide : MAX_BUFFER_SIZE < 2 ^ 64)
  unfold readMissingTransactions
  by_cases hshort : (dump (missingTransactionsResponseHeader (sizesOf sent))).length ≤
      MAX_HEADER_SIZE
  · rw [bind_of_ok ((readJsonHeader_append hcarried _ _ (by omega)).mpr ⟨hshort, rfl⟩)]
    dsimp only
    rw [bind_of_ok hparse, bind_of_ok (mapError_eq_ok.mpr hbytes)]
    dsimp only
    rw [bind_of_ok hlist, and_iff_right hshort]
    exact ⟨fun h => Except.ok.inj h, fun h => h ▸ rfl⟩
  · refine iff_of_false (fun h => ?_) fun h => hshort h.1
    obtain ⟨_, h₁, -⟩ := bind_eq_ok.mp h
    exact hshort ((readJsonHeader_append hcarried _ _ (by omega)).mp h₁).1

end Exchange

/-! ### Honest runs -/

section Honest
variable (n : Node) (dump : Json → Bytes) (known : ℕ → Bytes → Option Transaction)
  (p : BlockProposal)

/-- What the server finds. -/
def found : List (Bytes × Option Transaction) := lookups known (partialHashesOf n.cm.blake3 p)

/-- The transactions that the proposer sends. -/
def sent : List Transaction :=
  selected (Transaction.partialHash n.cm.blake3) (missing (found n known p)) p.transactionList

def sizesHeader : Json :=
  missingTransactionsResponseHeader ((sent n known p).map (Transaction.getSerializedSize · false))

/-- A transaction of the proposal, or one that the server finds. -/
def Involved (t : Transaction) : Prop := t ∈ p.transactionList ∨ ∃ i hash, known i hash = some t

/-- A proposal that its proposer signed, pushed to a server that has let its header pass. The pool
is a map by partial hashes, which are different for different transactions; the JSON library reads
the headers as it prints them; what is written fits a vector. -/
structure Honest (share : SigShare) : Prop where
  digest : ∀ x, (n.cm.blake3 x).length = HASH_LEN
  opened : ∃ s now, result? (openRequest n
    (createProposalRequestHeader n.cm.blake3 p).addFields now) s = some (.proceed, .ok)
  u256 : n.u256 (textBytes (toString p.stateRoot.toNat)) = some p.stateRoot
  node : getNodeIDByIndex n.cm p.proposerIndex = .ok p.proposerNodeID
  signed : p.verifyProposalECDSA n.cm (toHex (p.hash n.cm.blake3)) p.signature = .ok ()
  keyed : ∀ i hash t, known i hash = some t → t.partialHash n.cm.blake3 = hash
  injective : ∀ t u, Involved known p t → Involved known p u →
    t.partialHash n.cm.blake3 = u.partialHash n.cm.blake3 → t = u
  fits : (TransactionList.serialize n.cm.blake3 p.transactionList false).length < 2 ^ 64
  request : Carried n.json dump
    (missingTransactionsRequestHeader (missing (found n known p)).length)
  request_short : (dump (missingTransactionsRequestHeader
    (missing (found n known p)).length)).length ≤ MAX_HEADER_SIZE
  response : missing (found n known p) ≠ [] → Carried n.json dump (sizesHeader n known p)
  final : Carried n.json dump (finalProposalResponseHeader share)
  final_short : (dump (finalProposalResponseHeader share)).length ≤ MAX_HEADER_SIZE
  share : share.sigShare ≠ []

/-- The server takes that many transactions, it found each of them wherever it looked for it or
nowhere, and the sizes of those it did not find fit a header. -/
structure Undisturbed (maxTransactionsPerBlock : ℕ) : Prop where
  few : p.transactionList.length ≤ maxTransactionsPerBlock
  steady : Steady (found n known p)
  short : missing (found n known p) ≠ [] →
    (dump (sizesHeader n known p)).length ≤ MAX_HEADER_SIZE

variable {n dump known p} {share : SigShare} {maxTransactionsPerBlock : ℕ}

/-- A header that was read is the one that was sent. -/
theorem eq_of_blockProposalRequestHeader {h h' : BlockProposalRequestHeader} (hfits : h.Fits)
    (hroot : n.u256 (textBytes (toString h.stateRoot.toNat)) = some h.stateRoot)
    (hread : blockProposalRequestHeader n h.addFields = .ok h') : h' = h := by
  have hreads := of_blockProposalRequestHeader hread
  obtain ⟨text, htext, hroot'⟩ := hreads.stateRoot
  obtain rfl : textBytes (toString h.stateRoot.toNat) = text := Except.ok.inj htext
  have hnumber : ∀ {name : String} {x y : ℕ}, h.addFields.getUint64 name = .ok y →
      h.addFields.find? name = some (.number (.ofNat x)) → x < 2 ^ 64 → y = x :=
    fun hget hfind hx => Except.ok.inj (hget.symm.trans (Json.getUint64_of_find? hfind hx))
  have hms := Except.ok.inj
    (hreads.timeStampMs.symm.trans (Json.getUint32_of_find? rfl hfits.timeStampMs))
  have hhash : h.hash = h'.hash := Except.ok.inj hreads.hash
  have hsignature : h.signature = h'.signature := Except.ok.inj hreads.signature
  have hschain := hnumber hreads.schainID rfl hfits.schainID
  have hblock := hnumber hreads.blockID rfl hfits.blockID
  have hindex := hnumber hreads.proposerIndex rfl hfits.proposerIndex
  have hnode := hnumber hreads.proposerNodeID rfl hfits.proposerNodeID
  have hstamp := hnumber hreads.timeStamp rfl hfits.timeStamp
  have hcount := hnumber hreads.txCount rfl hfits.txCount
  have hstateRoot := Option.some.inj (hroot'.symm.trans hroot)
  cases h'
  cases h
  simp_all

theorem map_fst_found : (found n known p).map Prod.fst = partialHashesOf n.cm.blake3 p :=
  map_fst_lookups _

theorem length_missing_found_lt : (missing (found n known p)).length < 2 ^ 64 := by
  obtain ⟨-, -, -, -, hcount, -⟩ := p.fits
  have hlength : (found n known p).length = p.transactionList.length := by
    have hmap : ((found n known p).map Prod.fst).length =
        (p.transactionList.map (Transaction.partialHash n.cm.blake3)).length :=
      congrArg List.length map_fst_found
    rwa [List.length_map, List.length_map] at hmap
  have hle := length_missing_le (found n known p)
  omega

namespace Honest

section Steps
variable (h : Honest n dump known p share)
include h

/-- The server read the header that was sent; it is for its chain. -/
theorem header :
    blockProposalRequestHeader n (createProposalRequestHeader n.cm.blake3 p).addFields =
        .ok (createProposalRequestHeader n.cm.blake3 p) ∧ n.schainID = p.schainID := by
  obtain ⟨s, now, hopened⟩ := h.opened
  obtain ⟨hschain, hnode, hblock, hindex, hcount, hstamp, hms⟩ := p.fits
  have hfits : (createProposalRequestHeader n.cm.blake3 p).Fits :=
    ⟨hschain, hblock, hindex, hnode, hstamp, hms, hcount⟩
  rcases openRequest_cases n (createProposalRequestHeader n.cm.blake3 p).addFields now s with
    ⟨-, hrefused⟩ | ⟨h', hread, hopen, -⟩
  · exact absurd hopened hrefused
  · obtain rfl := eq_of_blockProposalRequestHeader hfits h.u256 hread
    refine ⟨hread, ?_⟩
    unfold refuseProposal at hopen
    exact not_not.mp (ite_some_eq_none.mp hopen).1

/-- The server ends with `CONNECTION_SUCCESS` once it has the list. -/
theorem finishRequest_run (s : NodeState) :
    ∃ s', (finishRequest n (createProposalRequestHeader n.cm.blake3 p) p.transactionList).run s =
      .ok (.success, .ok) s' := by
  obtain ⟨hread, hschain⟩ := h.header
  have hreceived : receivedBlockProposal n (createProposalRequestHeader n.cm.blake3 p)
      p.transactionList = .ok p := by
    refine bind_eq_ok.mpr ⟨p.proposerNodeID, h.node, BlockProposal.make_eq_ok_iff.mpr ?_⟩
    rw [hschain]
    exact p.rooted_eq.symm
  have htime : 0 < p.timeStamp := (Nat.zero_le _).trans_lt p.modern
  exact ⟨_, run_of_result? (result?_finishRequest (of_blockProposalRequestHeader hread).index htime
    hreceived h.signed s)⟩

theorem sendFinalHeader_eq : sendFinalHeader n.json dump share (.success, .ok) [] = .ok (0, 0) := by
  have hbuffer := h.final.headerToBuffer_eq h.final_short
  have hread := (readJsonHeader_append h.final "Read final response header" []
    (h.final_short.trans_lt (by decide))).mpr ⟨h.final_short, rfl⟩
  rw [List.append_nil] at hread
  refine bind_eq_ok.mpr ⟨(), rfl, ?_⟩
  refine checkArgument_bind_eq_ok.mpr ⟨not_isEmpty h.share, ?_⟩
  refine bind_eq_ok.mpr ⟨_, hbuffer, bind_eq_ok.mpr ⟨_, hread, ?_⟩⟩
  refine bind_eq_ok.mpr ⟨0, rfl, bind_eq_ok.mpr ⟨0, rfl, ?_⟩⟩
  refine bind_eq_ok.mpr ⟨share.sigShare, rfl, bind_eq_ok.mpr ⟨share.signature, rfl, ?_⟩⟩
  refine bind_eq_ok.mpr ⟨share.publicKey, rfl, bind_eq_ok.mpr ⟨share.publicKeySig, rfl, ?_⟩⟩
  exact checkArgument_bind_eq_ok.mpr ⟨not_isEmpty h.share, rfl⟩

theorem rebuilt_found :
    rebuilt (received (Transaction.partialHash n.cm.blake3) (sent n known p)) (found n known p) =
      some p.transactionList := by
  refine rebuilt_eq (fun i t ht u hu => ?_) (fun t ht u hu => ?_)
  · exact h.injective u t (.inr ⟨i, _, hu⟩) (.inl ht) (h.keyed i _ u hu)
  · exact h.injective u t (.inl hu) (.inl ht)

theorem length_of_mem_missing :
    ∀ hash ∈ missing (found n known p), hash.length = PARTIAL_HASH_LEN := by
  intro hash hmem
  obtain ⟨x, hx, -, rfl⟩ := mem_missing.mp hmem
  have hfst : x.1 ∈ (found n known p).map Prod.fst := List.mem_map_of_mem hx
  rw [map_fst_found] at hfst
  exact length_of_mem_partialHashesOf h.digest _ hfst

theorem length_serialize_sent_lt :
    (TransactionList.serialize n.cm.blake3 (sent n known p) false).length < 2 ^ 64 := by
  have hfits := h.fits
  have hsub : (sizesOf (sent n known p)).Sublist (sizesOf p.transactionList) :=
    List.filter_sublist.map _
  have hle := hsub.sum_le_sum fun _ _ => Nat.zero_le _
  rw [length_serialize_false h.digest] at hfits ⊢
  omega

/-- What was all found is put together. -/
theorem askForMissing_nil (hmissing : missing (found n known p) = []) :
    askForMissing n.cm.blake3 n.json dump (found n known p) [] p = .ok (p.transactionList, []) := by
  have hnothing : received (Transaction.partialHash n.cm.blake3) (sent n known p) =
      fun _ => none := by
    funext hash
    unfold sent selected
    simp [hmissing, received]
  have hrebuilt := h.rebuilt_found
  rw [hnothing] at hrebuilt
  refine bind_eq_ok.mpr ⟨_, mapError_eq_ok.mpr (h.request.headerToBuffer_eq h.request_short), ?_⟩
  refine bind_eq_ok.mpr ⟨_, sendMissingTransactions_nil length_missing_found_lt h.request
    h.request_short hmissing, ?_⟩
  have hzero : (missing (found n known p)).length = 0 := congrArg List.length hmissing
  dsimp only
  rw [if_pos hzero]
  refine bind_eq_ok.mpr ⟨_, rfl, ?_⟩
  rw [hrebuilt]
  rfl

theorem askForMissing_eq_ok
    (hmissing : missing (found n known p) ≠ []) {r : List Transaction × Bytes} :
    askForMissing n.cm.blake3 n.json dump (found n known p) [] p = .ok r ↔
      (Steady (found n known p) ∧ (dump (sizesHeader n known p)).length ≤ MAX_HEADER_SIZE) ∧
        r = (p.transactionList, []) := by
  have hzero : ¬ (missing (found n known p)).length = 0 :=
    (List.length_pos_of_ne_nil hmissing).ne'
  have hsteady : (sent n known p).length = (missing (found n known p)).length ↔
      Steady (found n known p) := length_selected_eq_iff map_fst_found
  rw [← hsteady]
  constructor
  · intro hok
    obtain ⟨header, h₁, h₂⟩ := bind_eq_ok.mp hok
    obtain rfl := Except.ok.inj ((mapError_eq_ok.mp h₁).symm.trans
      (h.request.headerToBuffer_eq h.request_short))
    obtain ⟨⟨answer, unread⟩, h₃, h₄⟩ := bind_eq_ok.mp h₂
    obtain ⟨hsame, header, hheader, heq⟩ := (sendMissingTransactions_eq_ok length_missing_found_lt
      h.request h.request_short hmissing h.length_of_mem_missing).mp h₃
    obtain ⟨rfl, rfl⟩ := Prod.mk.inj heq
    dsimp only at h₄
    rw [if_neg hzero] at h₄
    obtain ⟨got, h₅, h₆⟩ := bind_eq_ok.mp h₄
    obtain ⟨hshort, rfl⟩ := (readMissingTransactions_eq_ok h.digest h.length_serialize_sent_lt
      (h.response hmissing) hheader).mp h₅
    rw [h.rebuilt_found] at h₆
    exact ⟨⟨hsame, hshort⟩, (Except.ok.inj h₆).symm⟩
  · rintro ⟨⟨hsame, hshort⟩, rfl⟩
    have hheader := (h.response hmissing).headerToBuffer_eq hshort
    refine bind_eq_ok.mpr ⟨_, mapError_eq_ok.mpr (h.request.headerToBuffer_eq h.request_short), ?_⟩
    refine bind_eq_ok.mpr ⟨_, (sendMissingTransactions_eq_ok length_missing_found_lt h.request
      h.request_short hmissing h.length_of_mem_missing).mpr ⟨hsame, _, hheader, rfl⟩, ?_⟩
    dsimp only
    rw [if_neg hzero]
    refine bind_eq_ok.mpr ⟨_, (readMissingTransactions_eq_ok h.digest h.length_serialize_sent_lt
      (h.response hmissing) hheader).mpr ⟨hshort, rfl⟩, ?_⟩
    rw [h.rebuilt_found]
    rfl

/-- The exchange gives the proposer's list, if it gives one. -/
theorem exchangeTransactions_eq_ok {r : List Transaction × Bytes} :
    exchangeTransactions n.cm.blake3 n.json dump maxTransactionsPerBlock known
        (createProposalRequestHeader n.cm.blake3 p) p = .ok r ↔
      Undisturbed n dump known p maxTransactionsPerBlock ∧ r = (p.transactionList, []) := by
  have hask : askForMissing n.cm.blake3 n.json dump (found n known p) [] p = .ok r ↔
      (Steady (found n known p) ∧ (missing (found n known p) ≠ [] →
        (dump (sizesHeader n known p)).length ≤ MAX_HEADER_SIZE)) ∧
        r = (p.transactionList, []) := by
    by_cases hmissing : missing (found n known p) = []
    · rw [h.askForMissing_nil hmissing]
      exact ⟨fun heq => ⟨⟨steady_of_missing_eq_nil hmissing, fun hne => absurd hmissing hne⟩,
        (Except.ok.inj heq).symm⟩, fun heq => heq.2 ▸ rfl⟩
    · rw [h.askForMissing_eq_ok hmissing, imp_iff_right hmissing]
  constructor
  · intro hok
    obtain ⟨⟨hashes, stream⟩, h₁, h₂⟩ := bind_eq_ok.mp hok
    have hfew := le_of_readPartialHashes (mapError_eq_ok.mp h₁)
    obtain ⟨rfl, rfl⟩ := Prod.mk.inj (Except.ok.inj
      ((mapError_eq_ok.mp h₁).symm.trans (readPartialHashes_eq h.digest hfew)))
    obtain ⟨⟨hsteady, hshort⟩, rfl⟩ := hask.mp h₂
    exact ⟨⟨hfew, hsteady, hshort⟩, rfl⟩
  · rintro ⟨⟨hfew, hsteady, hshort⟩, hr⟩
    refine bind_eq_ok.mpr ⟨_, mapError_eq_ok.mpr (readPartialHashes_eq h.digest hfew), ?_⟩
    exact hask.mpr ⟨⟨hsteady, hshort⟩, hr⟩

end Steps

end Honest

/-- An honest push ends with the proposer's list and `CONNECTION_SUCCESS` exactly if the server
takes that many transactions, found each of them everywhere or nowhere and gets sizes that fit a
header. -/
theorem completes_iff (h : Honest n dump known p share) (s : NodeState) :
    Completes n dump maxTransactionsPerBlock known share p s ↔
      Undisturbed n dump known p maxTransactionsPerBlock := by
  unfold Completes push
  constructor
  · rintro ⟨s', hrun⟩
    obtain ⟨h', s₁, h₁, h₂⟩ := run_bind_eq_ok.mp hrun
    obtain ⟨hread, rfl⟩ := run_ofExcept_eq_ok.mp h₁
    obtain rfl := Except.ok.inj (h.header.1.symm.trans hread)
    obtain ⟨⟨transactions, unread⟩, s₂, h₃, -⟩ := run_bind_eq_ok.mp h₂
    exact (h.exchangeTransactions_eq_ok.mp (run_ofExcept_eq_ok.mp h₃).1).1
  · intro hundisturbed
    obtain ⟨s', hfinish⟩ := h.finishRequest_run s
    refine ⟨s', run_bind_eq_ok.mpr ⟨_, s, run_ofExcept_eq_ok.mpr ⟨h.header.1, rfl⟩, ?_⟩⟩
    refine run_bind_eq_ok.mpr ⟨_, s, run_ofExcept_eq_ok.mpr
      ⟨h.exchangeTransactions_eq_ok.mpr ⟨hundisturbed, rfl⟩, rfl⟩, ?_⟩
    refine run_bind_eq_ok.mpr ⟨_, s', hfinish, ?_⟩
    exact run_bind_eq_ok.mpr ⟨_, s', run_ofExcept_eq_ok.mpr ⟨h.sendFinalHeader_eq, rfl⟩, rfl⟩

end Honest

/-! ### A transaction that arrives while it is looked for -/

/-- Node 2's proposal for block 1 has the same transaction twice. -/
def repeatedFields (signature : Bytes) : ProposalFields :=
  ⟨1, 12, 1, 2, [seven, seven], 0, MODERN_TIME + 1, 0, signature⟩

def repeatedProposal : BlockProposal where
  toProposalFields := repeatedFields (letter 12 ++ (repeatedFields []).hash residue)
  fits := by decide +kernel
  rootless := nofun
  modern := by decide
  signed := List.cons_ne_nil _ _

/-- The transaction is in the pool from lookup `k` on. -/
def arrivingAt (k i : ℕ) (hash : Bytes) : Option Transaction :=
  if k ≤ i ∧ hash = seven.partialHash residue then some seven else none

def oneShare : SigShare := ⟨letter 1, [], [], []⟩

def pushHeaders : List Json :=
  [missingTransactionsRequestHeader 1, missingTransactionsRequestHeader 2,
    missingTransactionsResponseHeader [1, 1], finalProposalResponseHeader oneShare]

/-- Node 1, with a library that knows the headers of these runs. -/
def pushServer : Node := {besideByzantine with
  cm := {besideByzantine.cm with blake3 := residue}
  json := received printHeader pushHeaders}

theorem carried_of_mem {fields : Json} (hmem : fields ∈ pushHeaders) :
    Carried pushServer.json printHeader fields ∧
      (printHeader fields).length ≤ MAX_HEADER_SIZE := by
  have hnodup : (pushHeaders.map printHeader).Nodup := by decide +kernel
  have hlength : ∀ fields ∈ pushHeaders, 16 < (printHeader fields).length ∧
      (printHeader fields).length ≤ MAX_HEADER_SIZE := by decide +kernel
  obtain ⟨hlong, hshort⟩ := hlength fields hmem
  exact ⟨⟨received_eq hmem fun other hother heq => List.inj_on_of_nodup_map hnodup hother hmem heq,
    hlong⟩, hshort⟩

theorem of_arrivingAt {k i : ℕ} {hash : Bytes} {t : Transaction}
    (h : arrivingAt k i hash = some t) : t = seven ∧ seven.partialHash residue = hash := by
  unfold arrivingAt at h
  split_ifs at h with hfound
  exact ⟨(Option.some.inj h).symm, hfound.2.symm⟩

theorem eq_of_involved {k : ℕ} {t : Transaction} (h : Involved (arrivingAt k) repeatedProposal t) :
    t = seven := by
  rcases h with hmem | ⟨i, hash, hfound⟩
  · have hall : ∀ t ∈ repeatedProposal.transactionList, t = seven := by decide +kernel
    exact hall t hmem
  · exact (of_arrivingAt hfound).1

theorem honest_arrivingAt {k : ℕ} (hk : k = 1 ∨ k = 2) :
    Honest pushServer printHeader (arrivingAt k) repeatedProposal oneShare := by
  have hcount : (missing (found pushServer (arrivingAt k) repeatedProposal)).length = k := by
    rcases hk with rfl | rfl <;> decide +kernel
  have hsizes : (sent pushServer (arrivingAt k) repeatedProposal).map
      (Transaction.getSerializedSize · false) = [1, 1] := by
    rcases hk with rfl | rfl <;> decide +kernel
  have hrequest : missingTransactionsRequestHeader k ∈ pushHeaders := by
    rcases hk with rfl | rfl
    · exact List.mem_cons_self
    · exact List.mem_cons_of_mem _ List.mem_cons_self
  obtain ⟨s, -, hopened⟩ : ∃ s, (running pushServer).run [.build (firstDraft 1), .store] = some s ∧
      result? (openRequest pushServer
        (createProposalRequestHeader residue repeatedProposal).addFields (MODERN_TIME + 1)) s =
        some (.proceed, .ok) := Machine.exists_run (by decide +kernel)
  have hfinal : finalProposalResponseHeader oneShare ∈ pushHeaders := by simp [pushHeaders]
  refine ⟨fun _ => length_leBytes _ _, ⟨s, _, hopened⟩, by decide +kernel, by decide +kernel,
    by decide +kernel, fun i hash t h => ?_, fun t u ht hu _ => ?_, by decide +kernel, ?_, ?_,
    fun _ => ?_, (carried_of_mem hfinal).1, (carried_of_mem hfinal).2, List.cons_ne_nil _ _⟩
  · rw [(of_arrivingAt h).1]
    exact (of_arrivingAt h).2
  · rw [eq_of_involved ht, eq_of_involved hu]
  · rw [hcount]
    exact (carried_of_mem hrequest).1
  · rw [hcount]
    exact (carried_of_mem hrequest).2
  · unfold sizesHeader
    rw [hsizes]
    exact (carried_of_mem (by simp [pushHeaders])).1

/-- Both copies are missing, and both are sent. -/
theorem completes_repeated :
    Honest pushServer printHeader (arrivingAt 2) repeatedProposal oneShare ∧
      Completes pushServer printHeader MAX_TRANSACTIONS_PER_BLOCK (arrivingAt 2) oneShare
        repeatedProposal .genesis := by
  refine ⟨honest_arrivingAt (.inr rfl), (completes_iff (honest_arrivingAt (.inr rfl)) _).mpr ?_⟩
  exact ⟨by decide +kernel, by decide +kernel, fun _ => by decide +kernel⟩

/-- The first copy is missing; the second is found, and is sent as well. -/
theorem not_completes_arriving :
    Honest pushServer printHeader (arrivingAt 1) repeatedProposal oneShare ∧
      ¬ Completes pushServer printHeader MAX_TRANSACTIONS_PER_BLOCK (arrivingAt 1) oneShare
        repeatedProposal .genesis := by
  have hhonest : Honest pushServer printHeader (arrivingAt 1) repeatedProposal oneShare :=
    honest_arrivingAt (.inl rfl)
  have hthrows : exchangeTransactions residue pushServer.json printHeader
      MAX_TRANSACTIONS_PER_BLOCK (arrivingAt 1)
      (createProposalRequestHeader residue repeatedProposal) repeatedProposal =
      .error "Check failed::Transactions:2:1" := by decide +kernel
  refine ⟨hhonest, ?_⟩
  rintro ⟨s', hrun⟩
  obtain ⟨h', s₁, h₁, h₂⟩ := run_bind_eq_ok.mp hrun
  obtain ⟨hread, rfl⟩ := run_ofExcept_eq_ok.mp h₁
  obtain rfl := Except.ok.inj (hhonest.header.1.symm.trans hread)
  obtain ⟨r, s₂, h₃, -⟩ := run_bind_eq_ok.mp h₂
  cases hthrows.symm.trans (run_ofExcept_eq_ok.mp h₃).1

end SkaleConsensus.Proposal
