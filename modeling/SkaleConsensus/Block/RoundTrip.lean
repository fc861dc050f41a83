import SkaleConsensus.Block.Serialize

/-! Proposals and committed blocks as bytes, and back.

A committed block is written as a proposal is, with two more signatures in its header, of which
the DA signature may be missing. What is written is read back (`roundTrip_iff`), unless the header
is too long for the buffer that it is written to: then nothing is written. -/
namespace SkaleConsensus.Block
open Library Crypto

/-! ### Writing a committed block -/

section Write
variable (blake3 : Bytes → Hash) (dump : Json → Bytes)

namespace CommittedBlock

/-- The constructor of `CommittedBlockHeader`. -/
def createBlockHeader (block : CommittedBlock) : CommittedBlockHeader :=
  ⟨block.createProposalHeader blake3, block.thresholdSig, block.daSig⟩

end CommittedBlock

/-- The members that `CommittedBlockHeader::addFields` adds. -/
def CommittedBlockHeader.signatures (h : CommittedBlockHeader) : List (String × Json) :=
  ("thrSig", .string h.thresholdSig) ::
    if h.daSig.isEmpty then [] else [("daSig", .string h.daSig)]

def CommittedBlockHeader.addFields (h : CommittedBlockHeader) : Json :=
  .object (h.members ++ h.signatures)

namespace CommittedBlock

/-- `serialize` of a block that keeps no bytes yet. -/
def serialize (block : CommittedBlock) : Except String Bytes := do
  let s ← fieldsToString dump block.timeStamp (block.createBlockHeader blake3).addFields
  let buf ← headerBuffer s
  completeSerialization blake3 buf block.transactionList

def headerText (block : CommittedBlock) : Bytes := dump (block.createBlockHeader blake3).addFields

end CommittedBlock

end Write

/-! ### Round trips -/

/-- The proposal is read back as it was written, whoever signed it. -/
def BlockProposal.RoundTrips (r : BlockReader) (dump : Json → Bytes) (p : BlockProposal) : Prop :=
  ∃ bytes p', p.serializeProposal r.cm.blake3 dump = .ok bytes ∧
    r.deserializeProposal bytes false = .ok p' ∧ p' = p ∧ p'.hash r.cm.blake3 = p.hash r.cm.blake3

def CommittedBlock.RoundTrips (r : BlockReader) (dump : Json → Bytes) (block : CommittedBlock) :
    Prop :=
  ∃ bytes block', block.serialize r.cm.blake3 dump = .ok bytes ∧
    (∀ cache, (r.deserializeBlock bytes false).run cache = .ok block' cache) ∧ block' = block ∧
    block'.hash r.cm.blake3 = block.hash r.cm.blake3

section RoundTrip
variable {r : BlockReader} {dump : Json → Bytes} {p : BlockProposal} {block : CommittedBlock}

/-- A header that was put into a buffer is not too long for it. -/
theorem short_of_headerBuffer {s buf : Bytes} (h : headerBuffer s = .ok buf) :
    s.length + 8 ≤ MAX_BUFFER_SIZE := by
  obtain ⟨hsize, -⟩ := checkArgument_bind_eq_ok.mp h
  exact of_decide_eq_true hsize

theorem eq_dump_of_fieldsToString {timeStamp : ℕ} {fields : Json} {s : Bytes}
    (h : fieldsToString dump timeStamp fields = .ok s) : s = dump fields := by
  have h := after_check (after_check h)
  exact (Except.ok.inj h).symm

/-- The constructor of the header undoes `addFields`. -/
theorem committedBlockHeader_addFields
    (hroot : r.u256 (textBytes (toString block.stateRoot.toNat)) = some block.stateRoot)
    (hsizes : ∀ t ∈ block.transactionList, t.getSerializedSize true < 2 ^ 64) :
    r.committedBlockHeader (block.createBlockHeader r.cm.blake3).addFields =
      .ok (block.createBlockHeader r.cm.blake3) := by
  refine bind_eq_ok.mpr ⟨_, blockProposalHeader_members _ hroot hsizes, ?_⟩
  refine bind_eq_ok.mpr ⟨block.thresholdSig, rfl, ?_⟩
  refine checkState_bind_eq_ok.mpr ⟨not_isEmpty block.thresholdSigned, ?_⟩
  refine bind_eq_ok.mpr ⟨block.daSig, ?_, rfl⟩
  have hsignatures : (block.createBlockHeader r.cm.blake3).signatures =
      ("thrSig", .string block.thresholdSig) ::
        if block.daSig.isEmpty then [] else [("daSig", .string block.daSig)] := rfl
  unfold CommittedBlockHeader.addFields
  rw [hsignatures]
  cases block.daSig with
  | nil => rfl
  | cons c rest => rfl

theorem roundTrips_proposal_iff (hdigest : Hasher r.cm.blake3)
    (hp : Printed r p (p.headerText r.cm.blake3 dump)
      (p.createProposalHeader r.cm.blake3).addFields) :
    p.RoundTrips r dump ↔ (p.headerText r.cm.blake3 dump).length + 8 ≤ MAX_BUFFER_SIZE := by
  constructor
  · rintro ⟨bytes, p', hbytes, -⟩
    obtain ⟨buf, hbuf, -⟩ := bind_eq_ok.mp hbytes
    obtain ⟨s, hs, hbuf⟩ := bind_eq_ok.mp hbuf
    have hshort := short_of_headerBuffer hbuf
    rwa [eq_dump_of_fieldsToString hs] at hshort
  · intro hshort
    have hlegible : Legible r dump p := ⟨hp, hshort⟩
    exact ⟨_, p, hlegible.serializeProposal_eq,
      hlegible.deserializeProposal_eq hdigest nofun, rfl, rfl⟩

theorem serialize_eq (h : Printed r block.toBlockProposal (block.headerText r.cm.blake3 dump)
      (block.createBlockHeader r.cm.blake3).addFields)
    (hshort : (block.headerText r.cm.blake3 dump).length + 8 ≤ MAX_BUFFER_SIZE) :
    block.serialize r.cm.blake3 dump =
      .ok (leBytes 8 (block.headerText r.cm.blake3 dump).length ++
        block.headerText r.cm.blake3 dump ++
        TransactionList.serialize r.cm.blake3 block.transactionList true) := by
  refine bind_eq_ok.mpr ⟨block.headerText r.cm.blake3 dump, ?_, bind_eq_ok.mpr
    ⟨_, h.headerBuffer_eq hshort, h.completeSerialization_eq block.transactionList⟩⟩
  refine checkState_bind_eq_ok.mpr ⟨decide_eq_true ?_, ?_⟩
  · exact (Nat.zero_le _).trans_lt block.modern
  · exact checkState_bind_eq_ok.mpr ⟨decide_eq_true h.long, rfl⟩

/-- The part of `deserialize` before the signatures reads the block back. -/
theorem parseBlock_eq (hdigest : Hasher r.cm.blake3)
    (h : Printed r block.toBlockProposal (block.headerText r.cm.blake3 dump)
      (block.createBlockHeader r.cm.blake3).addFields)
    (hshort : (block.headerText r.cm.blake3 dump).length + 8 ≤ MAX_BUFFER_SIZE) :
    r.parseBlock (leBytes 8 (block.headerText r.cm.blake3 dump).length ++
        block.headerText r.cm.blake3 dump ++
        TransactionList.serialize r.cm.blake3 block.transactionList true) =
      .ok (block.createBlockHeader r.cm.blake3, block) := by
  obtain ⟨hbrace, hlast⟩ := h.ends block.transactionList
  have hheader := committedBlockHeader_addFields h.u256 fun t ht => h.size_lt hdigest ht
  have hmake : CommittedBlock.make
      ((block.createBlockHeader r.cm.blake3).fields block.transactionList) block.thresholdSig
      block.daSig = .ok block := by
    unfold CommittedBlock.make
    refine checkArgument_bind_eq_ok.mpr ⟨not_isEmpty block.signed, ?_⟩
    rw [dif_pos block.thresholdSigned]
    exact bind_eq_ok.mpr ⟨block.toBlockProposal,
      BlockProposal.make_eq_ok_iff.mpr block.rooted_eq.symm, rfl⟩
  unfold BlockReader.parseBlock
  refine bind_eq_ok.mpr ⟨123, by rw [byteAt, hbrace]; rfl, bind_eq_ok.mpr ⟨(), rfl, ?_⟩⟩
  refine checkArgument_bind_eq_ok.mpr ⟨beq_iff_eq.mpr hlast, ?_⟩
  refine bind_eq_ok.mpr ⟨_, extractHeader_eq h.head h.long (by omega) rfl
    (TransactionList.getLast?_serialize block.transactionList), ?_⟩
  refine checkState_bind_eq_ok.mpr ⟨not_isEmpty h.ne_nil, ?_⟩
  refine bind_eq_ok.mpr ⟨_, mapError_eq_ok.mpr ((h.parseBlockHeader_eq _).trans hheader), ?_⟩
  refine bind_eq_ok.mpr ⟨_, mapError_eq_ok.mpr (Printed.deserializeTransactions_eq hdigest _), ?_⟩
  exact bind_eq_ok.mpr ⟨block, mapError_eq_ok.mpr hmake, rfl⟩

theorem roundTrips_block_iff (hdigest : Hasher r.cm.blake3)
    (h : Printed r block.toBlockProposal (block.headerText r.cm.blake3 dump)
      (block.createBlockHeader r.cm.blake3).addFields) :
    block.RoundTrips r dump ↔ (block.headerText r.cm.blake3 dump).length + 8 ≤ MAX_BUFFER_SIZE := by
  constructor
  · rintro ⟨bytes, block', hbytes, -⟩
    obtain ⟨s, hs, hrest⟩ := bind_eq_ok.mp hbytes
    obtain ⟨buf, hbuf, -⟩ := bind_eq_ok.mp hrest
    have hshort := short_of_headerBuffer hbuf
    rwa [eq_dump_of_fieldsToString hs] at hshort
  · intro hshort
    refine ⟨_, block, serialize_eq h hshort, fun cache => ?_, rfl, rfl⟩
    unfold BlockReader.deserializeBlock
    rw [parseBlock_eq hdigest h hshort]
    rfl

/-- Proposals and committed blocks whose headers the libraries read as they printed them are read
back whole, if and only if the header and its length fit a buffer. -/
theorem roundTrip_iff (r : BlockReader) (hdigest : ∀ x, (r.cm.blake3 x).length = HASH_LEN)
    (dump : Json → Bytes) (p : BlockProposal) (block : CommittedBlock)
    (hp : Printed r p (p.headerText r.cm.blake3 dump)
      (p.createProposalHeader r.cm.blake3).addFields)
    (hblock : Printed r block.toBlockProposal (block.headerText r.cm.blake3 dump)
      (block.createBlockHeader r.cm.blake3).addFields) :
    (p.RoundTrips r dump ↔ (p.headerText r.cm.blake3 dump).length + 8 ≤ MAX_BUFFER_SIZE) ∧
      (block.RoundTrips r dump ↔
        (block.headerText r.cm.blake3 dump).length + 8 ≤ MAX_BUFFER_SIZE) :=
  ⟨roundTrips_proposal_iff hdigest hp, roundTrips_block_iff hdigest hblock⟩

end RoundTrip

/-! ### A proposal with many transactions -/

/-- A list with separators. -/
theorem length_intercalate (c : UInt8) {l : List Bytes} (h : l ≠ []) :
    (List.intercalate [c] l).length + 1 = (l.map List.length).sum + l.length := by
  induction l with
  | nil => exact absurd rfl h
  | cons a rest ih =>
    cases rest with
    | nil => simp [List.intercalate]
    | cons b rest =>
      have hrest := ih (List.cons_ne_nil _ _)
      rw [List.intercalate_cons_cons]
      simp only [List.length_append, List.map_cons, List.sum_cons, List.length_cons] at hrest ⊢
      simp only [List.length_nil]
      omega

def zeros : Hash := List.replicate HASH_LEN 0

def bulky (n : ℕ) (h : n < 2 ^ 32) : BlockProposal :=
  {BlockProposal.first with
    transactionList := List.replicate n seven
    fits := by
      obtain ⟨hschain, hnode, hblock, hindex, -, hstamp⟩ := BlockProposal.first.fits
      refine ⟨hschain, hnode, hblock, hindex, ?_, hstamp⟩
      show (List.replicate n _).length < 2 ^ 64
      rw [List.length_replicate]
      omega}

def bulkyBlock (n : ℕ) (h : n < 2 ^ 32) : CommittedBlock :=
  ⟨bulky n h, textBytes "thr", textBytes "da", by decide⟩

/-- A node that reads the headers of both. -/
def bulkyReader (n : ℕ) (h : n < 2 ^ 32) : BlockReader :=
  {BlockReader.ofFour with
    cm := {fourSigners [] [] with blake3 := fun _ => zeros}
    json := fun text =>
      if text = (bulky n h).headerText (fun _ => zeros) printHeader then
        some ((bulky n h).createProposalHeader fun _ => zeros).addFields
      else if text = (bulkyBlock n h).headerText (fun _ => zeros) printHeader then
        some ((bulkyBlock n h).createBlockHeader fun _ => zeros).addFields
      else none}

def small : BlockProposal := bulky 1 (by decide)

def smallBlock : CommittedBlock := bulkyBlock 1 (by decide)

def smallReader : BlockReader := bulkyReader 1 (by decide)

variable {n : ℕ}

theorem length_sizes (hn : 0 < n) :
    (printMember ("sizes", .array (List.replicate n (.number 9)))).length = 2 * n + 9 := by
  have hne : List.replicate n (printAtom (.number 9)) ≠ [] := by simpa using hn.ne'
  have hlength := length_intercalate 44 hne
  have hatom : (printAtom (.number 9)).length = 1 := by decide
  simp only [List.map_replicate, List.sum_replicate_nat, List.length_replicate, hatom] at hlength
  have hname : (textBytes "sizes").length = 5 := by decide
  simp only [printMember, List.map_replicate, List.length_append, List.length_cons,
    List.length_nil, hname]
  omega

/-- The members before the sizes, and those after them. -/
def membersBefore : List (String × Json) :=
  [("type", .string (textBytes "Blck")), ("schainID", .number 1), ("proposerIndex", .number 2),
    ("proposerNodeID", .number 12), ("blockID", .number 1), ("hash", .string (toHex zeros)),
    ("sig", .string (textBytes "sig"))]

def membersAfter : List (String × Json) :=
  [("timeStamp", .number 1547640183), ("timeStampMs", .number 0),
    ("sr", .string (textBytes (toString 0)))]

theorem members_bulky (h : n < 2 ^ 32) :
    ((bulky n h).createProposalHeader fun _ => zeros).members =
      membersBefore ++ ("sizes", .array (List.replicate n (.number 9))) :: membersAfter := by
  have hsizes : (((bulky n h).createProposalHeader fun _ => zeros).transactionSizes.map
      fun size => Json.number (.ofNat size)) = List.replicate n (.number 9) := by
    show ((List.replicate n _).map _).map _ = _
    rw [List.map_replicate, List.map_replicate]
    rfl
  unfold BlockProposalHeader.members
  rw [hsizes]
  rfl

/-- A printed object: its members, a comma or brace for each, and another brace. -/
theorem length_printHeader {members : List (String × Json)} (h : members ≠ []) :
    (printHeader (.object members)).length =
      (members.map fun m => (printMember m).length).sum + members.length + 1 := by
  have hne : members.map printMember ≠ [] := mt List.map_eq_nil_iff.mp h
  have hlength := length_intercalate 44 hne
  rw [List.length_map, List.map_map] at hlength
  simp only [printHeader, List.length_append, List.length_cons, List.length_nil]
  simp only [Function.comp_def] at hlength
  omega

theorem length_bulky (h : n < 2 ^ 32) (hn : 0 < n) (after : List (String × Json)) :
    (printHeader (.object (((bulky n h).createProposalHeader fun _ => zeros).members ++
      after))).length =
        2 * n + 222 + (after.map fun m => (printMember m).length).sum + after.length := by
  have hbefore : (membersBefore.map fun m => (printMember m).length).sum = 156 := by decide +kernel
  have hafter : (membersAfter.map fun m => (printMember m).length).sum = 45 := by decide +kernel
  rw [members_bulky, length_printHeader (by simp)]
  simp only [List.map_append, List.map_cons, List.sum_append, List.sum_cons, List.length_append,
    List.length_cons, length_sizes hn, hbefore, hafter]
  have hlengths : membersBefore.length = 7 ∧ membersAfter.length = 3 := by decide
  omega

/-- What is asked of the libraries holds of a header that is read as it was printed. -/
theorem printed_bulky (h : n < 2 ^ 32) (hn : 0 < n) {after : List (String × Json)}
    (hafter : (after.map fun m => (printMember m).length).sum + after.length < 2 ^ 32)
    (hjson : (bulkyReader n h).json (printHeader
        (.object (((bulky n h).createProposalHeader fun _ => zeros).members ++ after))) =
      some (.object (((bulky n h).createProposalHeader fun _ => zeros).members ++ after))) :
    Printed (bulkyReader n h) (bulky n h)
      (printHeader (.object (((bulky n h).createProposalHeader fun _ => zeros).members ++ after)))
      (.object (((bulky n h).createProposalHeader fun _ => zeros).members ++ after)) := by
  have hlength := length_bulky h hn after
  have hlist : (TransactionList.serialize (bulkyReader n h).cm.blake3 (bulky n h).transactionList
      true).length = n * 9 + 2 := by
    rw [TransactionList.length_serialize, List.length_flatMap]
    show ((List.replicate n _).map _).sum + 2 = n * 9 + 2
    rw [List.map_replicate, List.sum_replicate_nat]
    rfl
  refine ⟨rfl, List.getLast?_concat, by omega, hjson, ?_, ?_⟩
  · have hroot : (bulky n h).stateRoot = 0 := rfl
    have hu256 : (bulkyReader n h).u256 = fun text => (decimal text).map (BitVec.ofNat 256) := rfl
    rw [hroot, hu256]
    decide +kernel
  rw [List.length_append, List.length_append, length_leBytes, hlist]
  omega

theorem printed_proposal (h : n < 2 ^ 32) (hn : 0 < n) :
    Printed (bulkyReader n h) (bulky n h)
      ((bulky n h).headerText (bulkyReader n h).cm.blake3 printHeader)
      ((bulky n h).createProposalHeader (bulkyReader n h).cm.blake3).addFields := by
  have hprinted := @printed_bulky n h hn [] (by decide)
  rw [List.append_nil] at hprinted
  exact hprinted (if_pos rfl)

def bulkySignatures : List (String × Json) :=
  [("thrSig", .string (textBytes "thr")), ("daSig", .string (textBytes "da"))]

theorem length_signatures : (bulkySignatures.map fun m => (printMember m).length).sum = 26 := by
  decide +kernel

theorem printed_block (h : n < 2 ^ 32) (hn : 0 < n) :
    Printed (bulkyReader n h) (bulkyBlock n h).toBlockProposal
      ((bulkyBlock n h).headerText (bulkyReader n h).cm.blake3 printHeader)
      ((bulkyBlock n h).createBlockHeader (bulkyReader n h).cm.blake3).addFields := by
  have hblock := length_bulky h hn bulkySignatures
  have hproposal := length_bulky h hn []
  rw [length_signatures] at hblock
  rw [List.append_nil] at hproposal
  have hne : (bulkyBlock n h).headerText (fun _ => zeros) printHeader ≠
      (bulky n h).headerText (fun _ => zeros) printHeader := by
    intro heq
    have hlength := hblock.symm.trans ((congrArg List.length heq).trans hproposal)
    simp only [List.map_nil, List.sum_nil, List.length_nil] at hlength
    omega
  have hafter : (bulkySignatures.map fun m => (printMember m).length).sum +
      bulkySignatures.length < 2 ^ 32 := by
    rw [length_signatures]
    decide
  exact printed_bulky h hn hafter ((if_neg hne).trans (if_pos rfl))

/-- A proposal with two transactions. -/
theorem roundTrips_bulky :
    (bulky 2 (by decide)).RoundTrips (bulkyReader 2 (by decide)) printHeader ∧
      (bulkyBlock 2 (by decide)).RoundTrips (bulkyReader 2 (by decide)) printHeader := by
  obtain ⟨hproposal, hblock⟩ := roundTrip_iff (bulkyReader 2 (by decide))
    (fun _ => List.length_replicate) printHeader _ _ (printed_proposal (by decide) (by decide))
    (printed_block (by decide) (by decide))
  exact ⟨hproposal.mpr (by decide +kernel), hblock.mpr (by decide +kernel)⟩

/-- The sizes of five million transactions take ten million bytes. -/
theorem not_roundTrips_bulky :
    Printed (bulkyReader 5000000 (by decide)) (bulky 5000000 (by decide))
      ((bulky 5000000 (by decide)).headerText (bulkyReader 5000000 (by decide)).cm.blake3
        printHeader)
      ((bulky 5000000 (by decide)).createProposalHeader
        (bulkyReader 5000000 (by decide)).cm.blake3).addFields ∧
    ¬ (bulky 5000000 (by decide)).RoundTrips (bulkyReader 5000000 (by decide)) printHeader := by
  have hprinted := printed_proposal (n := 5000000) (by decide) (by decide)
  refine ⟨hprinted, fun hround => ?_⟩
  have hshort := (roundTrips_proposal_iff (fun _ => List.length_replicate) hprinted).mp hround
  have hlength := length_bulky (n := 5000000) (by decide) (by decide) []
  rw [List.append_nil] at hlength
  have hlong : ((bulky 5000000 (by decide)).headerText (bulkyReader 5000000 (by decide)).cm.blake3
    printHeader).length = 10000222 := hlength
  rw [hlong] at hshort
  exact absurd hshort (by decide)

end SkaleConsensus.Block
