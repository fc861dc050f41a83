import SkaleConsensus.Catchup.Client

/-! What is known of a block that was committed through catchup.

The DA signature of a block is checked if there is one, and has to be there if the time
stamp of the block is past the patch; the order of time stamps in the commit loop closes
the gap. Of a default block only the threshold signature is checked, which is for the
proposer index, the block id and the chain. -/
namespace SkaleConsensus.Catchup
open Library Block Crypto Proposal BlockReader BlockProposal

theorem eq_ok_of_mem_toOption {ε α : Type} {y : Except ε α} {a : α} (h : a ∈ y.toOption) :
    y = .ok a := by
  cases y with
  | error e => cases h
  | ok b => exact congrArg Except.ok (Option.some.inj h)

section Accepted
variable {n : Node} {maxBytes : ℕ} {response : Json} {data : Option Bytes}
  {processing : CommittedBlock → Option String} {tip t : Tip} {c : SessionCache} {commits : Commits}
  {block : CommittedBlock}

/-! ### DA signatures -/

theorem seconds_le_of_lt {a b : TimeStamp} (h : a.lt b = true) : a.s ≤ b.s := by
  rw [TimeStamp.lt_iff] at h
  omega

/-- Past the patch, a block of a proposer that is passed to `processCommittedBlock` carries a
DA signature that was accepted for its hash and block id, with the session keys that the node had
when it read the block: those it started with, and what the `k` blocks before it left. -/
theorem daSig_verified_of_mem_passed
    (h : result? (sync n maxBytes response data processing tip) c = some commits)
    (hpassed : (t, block) ∈ commits.passed) (hpatch : n.verifyDaSigsPatchTimestampS ≠ 0)
    (hlast : n.verifyDaSigsPatchTimestampS ≤ t.stamp.s) (hindex : block.proposerIndex ≠ 0) :
    ∃ blocks blockSizes totalSize serializedBlocks k c₁,
      result? (readMissingBlocks n maxBytes response data) c = some blocks ∧
      parseBlockSizes maxBytes response = .ok (blockSizes, totalSize) ∧
      data = some serializedBlocks ∧ blocks[k]? = some block ∧
      (verifyDAProofThresholdSig n.cm
        ⟨block.hash n.cm.blake3, block.daSig, block.blockID, block.timeStamp⟩).run
          (n.cacheAt serializedBlocks 1 blockSizes k c) = .ok () c₁ := by
  obtain ⟨-, hstamp, blocks, blockSizes, totalSize, serializedBlocks, k, index, size, c₁, hblocks,
    hsizes, hdata, hk, hread⟩ := read_of_mem_passed h hpassed
  obtain ⟨⟨blockData, -, hblock⟩, hneeded⟩ := of_readBlock hread
  obtain ⟨-, -, hverify⟩ := of_deserializeBlock hblock
  have hpast : n.verifyDASigsPatch block.timeStamp = true := by
    have hseconds : t.stamp.s ≤ block.timeStamp := seconds_le_of_lt hstamp
    unfold BlockReader.verifyDASigsPatch
    rw [bne_iff_ne.mpr hpatch, decide_eq_true (hlast.trans hseconds)]
    rfl
  have hsigned : block.isLegacy = false := List.isEmpty_eq_false_iff.mpr (hneeded hpast hindex)
  have hda := hverify hsigned
  unfold BlockReader.verifyDaSig at hda
  rw [if_neg hindex] at hda
  exact ⟨blocks, blockSizes, totalSize, serializedBlocks, k, c₁, hblocks, hsizes, hdata, hk, hda⟩

/-! ### Default blocks -/

/-- The header of a default block that follows `tip`, as this chain makes it. -/
def DefaultHeader (n : Node) (tip : Tip) (header : BlockProposalHeader) : Prop :=
  header.schainID = n.schainID ∧ header.proposerNodeID = 0 ∧ header.transactionSizes = [] ∧
    header.timeStamp = tip.stamp.incrementByMs.s ∧
    header.timeStampMs = tip.stamp.incrementByMs.ms % 2 ^ 32 ∧ header.signature = textBytes "EMPTY"

/-- A default block that is committed through catchup is the one that
`createDefaultEmptyBlockProposal` makes exactly if the server's header was one for it. -/
theorem default_iff_defaultHeader
    (h : result? (sync n maxBytes response data processing tip) c = some commits)
    (hpassed : (t, block) ∈ commits.passed) (hindex : block.proposerIndex = 0) :
    ∃ serializedBlocks index size blockData header, data = some serializedBlocks ∧
      slice serializedBlocks index size = .ok blockData ∧
      n.parseBlock blockData = .ok (header, block) ∧
      (createDefaultEmpty n.schainID t.stamp (t.id + 1) = .ok block.toBlockProposal ↔
        DefaultHeader n t header.toBlockProposalHeader) := by
  obtain ⟨hnext, -, _, _, _, serializedBlocks, _, index, size, _, -, -, hdata, -, hread⟩ :=
    read_of_mem_passed h hpassed
  obtain ⟨⟨blockData, hslice, hblock⟩, -⟩ := of_readBlock hread
  obtain ⟨⟨header, hparse⟩, -, -⟩ := of_deserializeBlock hblock
  refine ⟨serializedBlocks, index, size, blockData, header, hdata, hslice, hparse, ?_⟩
  obtain ⟨list, hlength, hfields, -, -⟩ := of_parseBlock hparse
  have hzero : header.proposerIndex = 0 :=
    (congrArg ProposalFields.proposerIndex hfields).symm.trans hindex
  have hid : header.blockID = t.id + 1 := (congrArg ProposalFields.blockID hfields).symm.trans hnext
  have hlist : list = [] ↔ header.transactionSizes = [] := by
    rw [← List.length_eq_zero_iff, hlength, List.length_eq_zero_iff]
  unfold createDefaultEmpty
  rw [make_eq_ok_iff, hfields]
  unfold ProposalFields.rooted BlockProposalHeader.fields DefaultHeader
  simp only [ProposalFields.mk.injEq, hzero, hid, hlist, if_true, true_and]

end Accepted

/-! ### Blocks from a server -/

/-- Four bytes, with the start of their digest. -/
def stuffing : Bytes := [1, 2, 3, 4] ++ toHex [1, 2, 3, 4]

/-- The digest of node 2's proposal for block 1. -/
def proposedHash : Hash := ProposalFields.hash ⟨1, 12, 1, 2, [], 0, MODERN_TIME + 1, 1, []⟩ toHex

/-- Shares of the nodes 1 to 3 for it. -/
def proposedDaSig : Bytes :=
  List.intercalate (textBytes "*") (([1, 2, 3] : List ℕ).map fun i =>
    List.intercalate (textBytes ";") [textBytes (toString i), sessionKey ++ proposedHash,
      sessionKey, letter (10 + i) ++ certificateHash 1])

/-- A header of block 1, signed by the chain. -/
def headerOf (proposerIndex proposerNodeID : UInt64) (ms : ℕ) (signature daSig : Bytes)
    (sizes : List Json) : Json :=
  .object [("proposerIndex", .number proposerIndex), ("proposerNodeID", .number proposerNodeID),
    ("blockID", .number 1), ("schainID", .number 1),
    ("timeStamp", .number (.ofNat (MODERN_TIME + 1))), ("timeStampMs", .number (.ofNat ms)),
    ("hash", .string (toHex proposedHash)), ("sig", .string signature),
      ("sr", .string (textBytes "0")), ("sizes", .array sizes),
    ("thrSig", .string (textBytes "t")), ("daSig", .string daSig)]

/-- The texts 1 to 3 stand for the header of the default block, of one with a transaction
and a later time stamp, and of node 2's block. -/
def headers (text : Bytes) : Option Json :=
  if text = [123, 49, 125] then some (headerOf 0 0 1 (textBytes "EMPTY") [] [])
  else if text = [123, 50, 125] then some (headerOf 0 0 7 (textBytes "EMPTY") [] [.number 12])
  else if text = [123, 51, 125] then
    some (headerOf 2 12 1 (letter 12 ++ proposedHash) proposedDaSig [])
  else none

/-- A node of four; the chain has decided on block 1 of node 2 and on the default block. -/
def catchingUp : Node :=
  {Node.ofFour with
    cm := fourSigners ((letter 12, proposedHash) :: certificatesOf [11, 12, 13])
      [(sessionKey, proposedHash)]
    json := headers
    verifyThresholdSig := fun sig _ hash _ => sig == textBytes "t" && [0, 2].any fun index =>
      hash == toHex (leBytes 8 index ++ leBytes 8 1 ++ leBytes 8 1 ++ leBytes 4 12)
    verifyDaSigsPatchTimestampS := 1}

/-- One block with this header and these transactions. -/
def served (text : UInt8) (transactions : Bytes) : Bytes :=
  leBytes 8 3 ++ [123, text, 125] ++ [60] ++ transactions ++ [62]

/-- The server sends it to a node without blocks. -/
abbrev catchUp (text : UInt8) (transactions : Bytes) : EStateM String SessionCache Commits :=
  sync catchingUp 1000
    (.object [("status", .number 1),
      ("sizes", .array [.number (.ofNat (served text transactions).length)])])
    (some ([91] ++ served text transactions ++ [93])) (fun _ => none) ⟨0, ⟨MODERN_TIME + 1, 0⟩⟩

theorem daSig_verified_catchUp : ∃ commits, result? (catchUp 51 []) .empty = some commits ∧
    ∃ passed ∈ commits.passed, passed.2.proposerIndex = 2 ∧
      ∃ blockSizes serializedBlocks k c₁,
        (verifyDAProofThresholdSig catchingUp.cm
          ⟨passed.2.hash catchingUp.cm.blake3, passed.2.daSig, passed.2.blockID,
            passed.2.timeStamp⟩).run
              (catchingUp.cacheAt serializedBlocks 1 blockSizes k .empty) = .ok () c₁ := by
  obtain ⟨commits, hresult, passed, hpassed, hindex, hlast⟩ :
      ∃ commits, result? (catchUp 51 []) .empty = some commits ∧
        ∃ passed ∈ commits.passed, passed.2.proposerIndex = 2 ∧ 1 ≤ passed.1.stamp.s :=
    exists_result (by decide +kernel)
  refine ⟨commits, hresult, passed, hpassed, hindex, ?_⟩
  obtain ⟨-, blockSizes, -, serializedBlocks, k, c₁, -, -, -, -, hda⟩ :=
    daSig_verified_of_mem_passed hresult hpassed (by decide) hlast (by rw [hindex]; decide)
  exact ⟨blockSizes, serializedBlocks, k, c₁, hda⟩

theorem defaultHeader_catchUp : ∃ commits, result? (catchUp 49 []) .empty = some commits ∧
    ∃ passed ∈ commits.passed, ∃ header : BlockProposalHeader,
      createDefaultEmpty 1 passed.1.stamp (passed.1.id + 1) =
        .ok passed.2.toBlockProposal ∧ DefaultHeader catchingUp passed.1 header := by
  obtain ⟨commits, hresult, passed, hpassed, hindex, hfields⟩ :
      ∃ commits, result? (catchUp 49 []) .empty = some commits ∧
        ∃ passed ∈ commits.passed, passed.2.proposerIndex = 0 ∧
          passed.2.toBlockProposal ∈
            (createDefaultEmpty 1 passed.1.stamp (passed.1.id + 1)).toOption :=
    exists_result (by decide +kernel)
  obtain ⟨-, -, -, -, header, -, -, -, hiff⟩ :=
    default_iff_defaultHeader hresult hpassed hindex
  have hdefault := eq_ok_of_mem_toOption hfields
  exact ⟨commits, hresult, passed, hpassed, header.toBlockProposalHeader, hdefault,
    hiff.mp hdefault⟩

/-- There is a default block after the tip, and time stamp and hash are not those of it. -/
def DiffersFromDefault (tip : Tip) (block : CommittedBlock) : Prop :=
  (createDefaultEmpty 1 tip.stamp (tip.id + 1)).toOption.isSome ∧
  ∀ default ∈ (createDefaultEmpty 1 tip.stamp (tip.id + 1)).toOption,
    block.getTimeStamp ≠ default.getTimeStamp ∧ block.hash toHex ≠ default.hash toHex

instance (tip : Tip) (block : CommittedBlock) : Decidable (DiffersFromDefault tip block) :=
  inferInstanceAs (Decidable (_ ∧ ∀ default ∈ _, _))

/-- A default block with a transaction and a later time stamp is committed. -/
theorem default_ne_catchUp :
    ∃ commits, result? (catchUp 50 stuffing) .empty = some commits ∧
      ∃ passed ∈ commits.passed, passed.2.proposerIndex = 0 ∧ passed.2.transactionList ≠ [] ∧
        DiffersFromDefault passed.1 passed.2 :=
  exists_result (by decide +kernel)

end SkaleConsensus.Catchup
