import SkaleConsensus.Block.RoundTrip

/-! Which bytes are read as a proposal or a block.

The reader looks for the brackets in front of the transactions and at the end, and it walks over
the sizes of the header from the first bracket on. It does not look where the walk ends: bytes may
be left before the last bracket, and the last transaction may reach over it.

`canonical_iff` says that the bytes that are read are those that are written exactly when the
sizes add up. -/
namespace SkaleConsensus.Block
open Library Crypto

/-! ### The walk over the sizes -/

section Transactions
variable {blake3 : Bytes → Hash}

theorem Transaction.serialize_of_make {trx : Bytes} {t : Transaction}
    (h : Transaction.make blake3 trx true = .ok t) : t.serialize blake3 true = trx := by
  unfold Transaction.make at h
  rw [if_pos rfl] at h
  split_ifs at h with hlong
  dsimp only at h
  split_ifs at h with hhash
  cases h
  show trx.take _ ++ (if true = true then Transaction.partialHash blake3 _ else []) = trx
  rw [if_pos rfl, hhash]
  exact List.take_append_drop _ _

theorem Transaction.of_deserialize {data : Bytes} {start len : ℕ} {t : Transaction}
    (h : Transaction.deserialize blake3 data start len true = .ok t) :
    start + len ≤ data.length ∧ (data.drop start).take len = t.serialize blake3 true := by
  have h := after_check (after_check h)
  obtain ⟨part, hpart, h⟩ := bind_eq_ok.mp h
  rw [Transaction.serialize_of_make h]
  exact slice_eq_ok hpart

/-- The transactions stand behind each other, each with the size that is listed for it. -/
theorem of_deserializeFrom {serialized : Bytes} {index : ℕ} {sizes : List ℕ}
    {list : List Transaction}
    (h : deserializeFrom blake3 serialized true index sizes = .ok list)
    (hindex : index ≤ serialized.length) :
    list.map (fun t => (t.serialize blake3 true).length) = sizes ∧
      index + sizes.sum ≤ serialized.length ∧
      (serialized.drop index).take sizes.sum =
        list.flatMap (Transaction.serialize blake3 · true) := by
  induction sizes generalizing index list with
  | nil =>
    cases h
    exact ⟨rfl, hindex, rfl⟩
  | cons size sizes ih =>
    have h := after_check h
    obtain ⟨t, ht, h⟩ := bind_eq_ok.mp h
    obtain ⟨rest, hrest, h⟩ := bind_eq_ok.mp h
    cases h
    obtain ⟨hend, hbytes⟩ := Transaction.of_deserialize (mapError_eq_ok.mp ht)
    obtain ⟨hsizes, hle, htail⟩ := ih hrest hend
    have hlength : (t.serialize blake3 true).length = size := by
      rw [← hbytes, List.length_take, List.length_drop]
      omega
    refine ⟨?_, ?_, ?_⟩
    · rw [List.map_cons, hlength, hsizes]
    · rw [List.sum_cons]
      omega
    · rw [List.sum_cons, List.take_add, List.drop_drop, hbytes, htail, List.flatMap_cons]

/-- What `TransactionList::deserialize` has checked: the sizes are those of the transactions, which
stand behind the bracket. -/
theorem TransactionList.of_deserialize {sizes : List ℕ} {serialized : Bytes} {offset : ℕ}
    {list : List Transaction}
    (h : TransactionList.deserialize blake3 sizes serialized offset true = .ok list) :
    list.map (fun t => (t.serialize blake3 true).length) = sizes ∧
      (serialized.drop (offset + 1)).take sizes.sum =
        list.flatMap (Transaction.serialize blake3 · true) := by
  obtain ⟨less, hless, h⟩ := bind_eq_ok.mp h
  obtain ⟨hoffset, -⟩ := List.getElem?_eq_some_iff.mp (byteAt_eq_ok.mp hless)
  have h := after_check (after_check h)
  cases sizes with
  | nil =>
    rw [List.isEmpty_nil, if_pos rfl] at h
    dsimp only at h
    split_ifs at h
    · cases h
    · cases h
      exact ⟨rfl, rfl⟩
  | cons size sizes =>
    have h := after_check (after_check h)
    obtain ⟨hsizes, -, hbytes⟩ := of_deserializeFrom h hoffset
    exact ⟨hsizes, hbytes⟩

end Transactions

/-! ### The header -/

/-- A bracket stands behind the header, and one at the end. -/
theorem of_extractHeader {bytes header : Bytes} (h : extractHeader bytes = .ok header) :
    (∃ rest, bytes = leBytes 8 header.length ++ header ++ 60 :: rest) ∧
      bytes.getLast? = some 62 := by
  refine ⟨?_, (ends_of_extractHeader h).2⟩
  unfold extractHeader at h
  split at h
  · cases h
  dsimp only at h
  split at h
  · cases h
  have h := after_check h
  obtain ⟨less, hbyte, h⟩ := bind_eq_ok.mp h
  obtain ⟨hless, h⟩ := checkState_bind_eq_ok.mp h
  obtain ⟨brace, h⟩ := after_bind h
  have h := after_check (after_check h)
  rw [beq_iff_eq.mp hless] at hbyte
  obtain ⟨hlength, hbehind⟩ := List.getElem?_eq_some_iff.mp (byteAt_eq_ok.mp hbyte)
  have height : (bytes.take 8).length = 8 := by
    rw [List.length_take]
    omega
  have hheader : header = (bytes.drop 8).take (fromLeBytes (bytes.take 8)) :=
    (Except.ok.inj h).symm
  have hsize : header.length = fromLeBytes (bytes.take 8) := by
    rw [hheader, List.length_take, List.length_drop]
    omega
  refine ⟨bytes.drop (fromLeBytes (bytes.take 8) + 8 + 1), ?_⟩
  rw [hsize, leBytes_fromLeBytes height, hheader, ← hbehind, ← List.drop_eq_getElem_cons hlength,
    Nat.add_comm _ 8, ← List.drop_drop, List.append_assoc, List.take_append_drop,
    List.take_append_drop]

/-! ### Canonical bytes -/

/-- The length of the header, the header, and the transactions of the listed sizes between
brackets. -/
def Canonical (blake3 : Bytes → Hash) (bytes header : Bytes) (sizes : List ℕ)
    (list : List Transaction) : Prop :=
  list.map (fun t => (t.serialize blake3 true).length) = sizes ∧
    bytes = leBytes 8 header.length ++ header ++ TransactionList.serialize blake3 list true

/-- The bytes are read, as a proposal or as a block, with this header, which lists these sizes, and
these transactions. -/
def Accepts (r : BlockReader) (bytes header : Bytes) (sizes : List ℕ) (list : List Transaction) :
    Prop :=
  extractHeader bytes = .ok header ∧
    ((∃ verifySig p h, r.deserializeProposal bytes verifySig = .ok p ∧
        r.parseBlockHeader r.blockProposalHeader header = .ok h ∧ h.transactionSizes = sizes ∧
        p.transactionList = list) ∨
      ∃ verifySig block h cache cache',
        (r.deserializeBlock bytes verifySig).run cache = .ok block cache' ∧
        r.parseBlockHeader r.committedBlockHeader header = .ok h ∧ h.transactionSizes = sizes ∧
        block.transactionList = list)

section Accepted
variable {r : BlockReader} {bytes header : Bytes}

theorem read_of_deserializeProposal {verifySig : Bool} {p : BlockProposal} {h : BlockProposalHeader}
    (hread : r.deserializeProposal bytes verifySig = .ok p)
    (hextract : extractHeader bytes = .ok header)
    (hparse : r.parseBlockHeader r.blockProposalHeader header = .ok h) :
    TransactionList.deserialize r.cm.blake3 h.transactionSizes bytes (header.length + 8) true =
      .ok p.transactionList := by
  obtain ⟨header', hextract', h₁⟩ := bind_eq_ok.mp hread
  have h₂ := after_check h₁
  obtain ⟨h', hparse', h₃⟩ := bind_eq_ok.mp h₂
  obtain ⟨list, hlist, h₄⟩ := bind_eq_ok.mp h₃
  have h₅ := after_check h₄
  obtain ⟨made, hmake, h₆⟩ := bind_eq_ok.mp h₅
  cases hextract.symm.trans hextract'
  cases hparse.symm.trans (mapError_eq_ok.mp hparse')
  have hmade : made = p := by
    split_ifs at h₆
    · have h₇ := after_check h₆
      exact Except.ok.inj h₇
    · exact Except.ok.inj h₆
  have hfields := congrArg ProposalFields.transactionList (BlockProposal.of_make_eq_ok hmake)
  rw [← hmade, hfields]
  exact mapError_eq_ok.mp hlist

theorem parseBlock_of_deserializeBlock {verifySig : Bool} {block : CommittedBlock}
    {cache cache' : SessionCache}
    (h : (r.deserializeBlock bytes verifySig).run cache = .ok block cache') :
    ∃ header, r.parseBlock bytes = .ok (header, block) := by
  cases verifySig with
  | true => exact (BlockReader.of_deserializeBlock h).1
  | false =>
    unfold BlockReader.deserializeBlock at h
    cases hparse : r.parseBlock bytes with
    | error e =>
      rw [hparse] at h
      cases h
    | ok parsed =>
      rw [hparse] at h
      cases h
      exact ⟨_, rfl⟩

theorem read_of_parseBlock {block : CommittedBlock} {h h' : CommittedBlockHeader}
    (hread : r.parseBlock bytes = .ok (h', block))
    (hextract : extractHeader bytes = .ok header)
    (hparse : r.parseBlockHeader r.committedBlockHeader header = .ok h) :
    TransactionList.deserialize r.cm.blake3 h.transactionSizes bytes (header.length + 8) true =
      .ok block.transactionList := by
  obtain ⟨brace, h₁⟩ := after_bind hread
  have h₃ := after_check (after_check h₁)
  obtain ⟨header', hextract', h₄⟩ := bind_eq_ok.mp h₃
  have h₅ := after_check h₄
  obtain ⟨h'', hparse', h₆⟩ := bind_eq_ok.mp h₅
  obtain ⟨list, hlist, h₇⟩ := bind_eq_ok.mp h₆
  obtain ⟨made, hmade, h₈⟩ := bind_eq_ok.mp h₇
  cases hextract.symm.trans hextract'
  cases hparse.symm.trans (mapError_eq_ok.mp hparse')
  cases h₈
  obtain ⟨hmake, -, -⟩ := CommittedBlock.of_make_eq_ok (mapError_eq_ok.mp hmade)
  have hfields := congrArg ProposalFields.transactionList (BlockProposal.of_make_eq_ok hmake)
  rw [hfields]
  exact mapError_eq_ok.mp (mapError_eq_ok.mp hlist)

variable {sizes : List ℕ} {list : List Transaction}

theorem Accepts.read (h : Accepts r bytes header sizes list) :
    TransactionList.deserialize r.cm.blake3 sizes bytes (header.length + 8) true = .ok list := by
  obtain ⟨hextract, ⟨verifySig, p, parsed, hread, hparse, rfl, rfl⟩ |
    ⟨verifySig, block, parsed, cache, cache', hread, hparse, rfl, rfl⟩⟩ := h
  · exact read_of_deserializeProposal hread hextract hparse
  · obtain ⟨_, hblock⟩ := parseBlock_of_deserializeBlock hread
    exact read_of_parseBlock hblock hextract hparse

/-- Only where the walk over the sizes ends is not checked. -/
theorem Accepts.canonical_iff_sum_eq (h : Accepts r bytes header sizes list) :
    Canonical r.cm.blake3 bytes header sizes list ↔
      header.length + 10 + sizes.sum = bytes.length := by
  obtain ⟨hsizes, hbody⟩ := TransactionList.of_deserialize h.read
  obtain ⟨⟨rest, hbytes⟩, hlast⟩ := of_extractHeader h.1
  have hfront : (leBytes 8 header.length ++ header).length = header.length + 8 := by
    rw [List.length_append, length_leBytes, Nat.add_comm]
  have hsum : (list.flatMap (Transaction.serialize r.cm.blake3 · true)).length = sizes.sum := by
    rw [List.length_flatMap, hsizes]
  have hrest : rest.take sizes.sum = list.flatMap (Transaction.serialize r.cm.blake3 · true) := by
    rw [← hbody, hbytes, ← hfront, ← List.drop_drop, List.drop_left]
    rfl
  constructor
  · rintro ⟨-, heq⟩
    rw [heq, List.length_append, hfront, TransactionList.length_serialize, hsum]
    omega
  · intro hlength
    -- One byte is behind the transactions, and it is the last.
    have hone : (rest.drop sizes.sum).length = 1 := by
      rw [hbytes, List.length_append, hfront, List.length_cons] at hlength
      rw [List.length_drop]
      omega
    obtain ⟨b, hb⟩ := List.length_eq_one_iff.mp hone
    have hsplit : rest = list.flatMap (Transaction.serialize r.cm.blake3 · true) ++ [b] := by
      rw [← hrest, ← hb, List.take_append_drop]
    rw [hbytes, hsplit, ← List.cons_append, ← List.append_assoc, List.getLast?_concat] at hlast
    refine ⟨hsizes, ?_⟩
    rw [hbytes, hsplit, Option.some.inj hlast]
    rfl

end Accepted

/-- Bytes that are read are those that are written exactly if the sizes add up to what stands
between the brackets, and then the header and the transactions determine them. -/
theorem canonical_iff (r : BlockReader) (bytes header : Bytes) (sizes : List ℕ)
    (list : List Transaction) (h : Accepts r bytes header sizes list) :
    (Canonical r.cm.blake3 bytes header sizes list ↔
      header.length + 10 + sizes.sum = bytes.length) ∧
    ∀ (bytes' : Bytes) (sizes' : List ℕ), Accepts r bytes' header sizes' list →
      header.length + 10 + sizes.sum = bytes.length →
      header.length + 10 + sizes'.sum = bytes'.length → bytes = bytes' := by
  refine ⟨h.canonical_iff_sum_eq, fun bytes' sizes' h' hlength hlength' => ?_⟩
  rw [(h.canonical_iff_sum_eq.mpr hlength).2, (h'.canonical_iff_sum_eq.mpr hlength').2]

/-! ### Bytes between the transactions and the last bracket -/

/-- A node for which `small` is signed by its proposer. -/
def signedReader : BlockReader :=
  {smallReader with
    cm := {fourSigners [] [] with
      blake3 := fun _ => zeros
      verifyECDSA := fun _ _ sig => sig == textBytes "sig"}}

def smallHeader : Bytes := small.headerText signedReader.cm.blake3 printHeader

/-- The bytes of `small` with `left` behind the transaction. -/
def smallBytes (left : Bytes) : Bytes :=
  leBytes 8 smallHeader.length ++ smallHeader ++
    (60 :: small.transactionList.flatMap (Transaction.serialize signedReader.cm.blake3 · true) ++
      left ++ [62])

theorem accepts_smallBytes {left : Bytes} (h : extractHeader (smallBytes left) = .ok smallHeader)
    (hread : signedReader.deserializeProposal (smallBytes left) true = .ok small) :
    Accepts signedReader (smallBytes left) smallHeader [9] small.transactionList := by
  obtain ⟨parsed, hparse, hsizes⟩ :
      ∃ parsed, signedReader.parseBlockHeader signedReader.blockProposalHeader smallHeader =
        .ok parsed ∧ parsed.transactionSizes = [9] := exists_ok (by decide +kernel)
  exact ⟨h, .inl ⟨true, small, parsed, hread, hparse, hsizes, rfl⟩⟩

theorem accepts_small :
    Accepts signedReader (smallBytes []) smallHeader [9] small.transactionList :=
  accepts_smallBytes (by decide +kernel) (by decide +kernel)

theorem canonical_small :
    Canonical signedReader.cm.blake3 (smallBytes []) smallHeader [9] small.transactionList :=
  (canonical_iff signedReader _ _ _ _ accepts_small).1.mpr (by decide +kernel)

/-- One byte may be left over: two texts with one header and the same transactions. -/
theorem accepts_left_over :
    Accepts signedReader (smallBytes []) smallHeader [9] small.transactionList ∧
      Accepts signedReader (smallBytes [0]) smallHeader [9] small.transactionList ∧
      smallBytes [] ≠ smallBytes [0] ∧
      ¬ Canonical signedReader.cm.blake3 (smallBytes [0]) smallHeader [9]
        small.transactionList := by
  have haccepts := @accepts_smallBytes [0] (by decide +kernel) (by decide +kernel)
  refine ⟨accepts_small, haccepts, by decide +kernel, fun hcanonical => ?_⟩
  exact absurd (haccepts.canonical_iff_sum_eq.mp hcanonical) (by decide +kernel)

end SkaleConsensus.Block
