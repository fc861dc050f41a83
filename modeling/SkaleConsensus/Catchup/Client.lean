import SkaleConsensus.Proposal.Store

/-! Catching up from another node.

The server sends the sizes of some blocks and the blocks. They are read up to the first
that does not verify, and those that follow the last committed block are passed to
`processCommittedBlock` one after the other. What a block was checked for is what is
known of it then: `read_of_mem_passed` says which checks those are, and the results on
default blocks and DA signatures are read off it. -/
namespace SkaleConsensus.Catchup
open Library Block Crypto Proposal

/-! ### Reading -/

/-- The sizes, and how many bytes are to be read: two more than their sum, for the
brackets. -/
def parseBlockSizes (maxCatchupDownloadBytes : ℕ) (response : Json) :
    Except String (List ℕ × ℕ) := do
  match response.find? "sizes" with
  | none => throw "No json sizes element in response"
  | some (.array items) =>
    if items.isEmpty then throw "JSON sizes is empty"
    let blockSizes ← items.mapM Json.toUint64
    let totalSize := blockSizes.sum % 2 ^ 64
    if totalSize < 4 then throw "TotalSize < 4"
    if maxCatchupDownloadBytes < totalSize then
      throw "totalSize > getNode()->getMaxCatchupDownloadBytes()"
    return (blockSizes, totalSize + 2)
  | some _ => throw "JSON Sizes is not an array "

section Client
variable (n : Node) (maxCatchupDownloadBytes : ℕ)

/-- The bytes are `none` if they could not be read. The first of several blocks is logged,
so that there has to be one. -/
def readMissingBlocks (response : Json) (data : Option Bytes) :
    EStateM String SessionCache (List CommittedBlock) :=
  match parseBlockSizes maxCatchupDownloadBytes response with
  | .error e => throw e
  | .ok (blockSizes, totalSize) =>
    match data with
    | none => throw "Could not read blocks"
    | some serializedBlocks =>
      if serializedBlocks.length ≠ totalSize then throw "Could not read blocks"
      else do
        let blocks ← n.deserializeBlockList blockSizes serializedBlocks 0 true
        if 1 < blockSizes.length ∧ blocks.isEmpty then throw "Could not process block list"
        else return blocks

/-! ### Committing -/

/-- The last committed block. -/
structure Tip where
  id : ℕ
  stamp : TimeStamp
deriving DecidableEq, Repr

/-- What the loop did: the blocks it passed to `processCommittedBlock`, each with the tip at
that time, the tip it left and what it threw. -/
structure Commits where
  passed : List (Tip × CommittedBlock)
  tip : Tip
  thrown : Option String

/-- The loop of `blockCommitsArrivedThroughCatchup`; `processing` says what
`processCommittedBlock` throws. -/
def commitBlocks (processing : CommittedBlock → Option String) : Tip → List CommittedBlock → Commits
  | tip, [] => ⟨[], tip, none⟩
  | tip, block :: blocks =>
    if block.blockID = tip.id + 1 then
      if tip.stamp.lt block.getTimeStamp then
        match processing block with
        | some e => ⟨[(tip, block)], tip, some e⟩
        | none =>
          let rest := commitBlocks processing ⟨block.blockID, block.getTimeStamp⟩ blocks
          {rest with passed := (tip, block) :: rest.passed}
      else ⟨[], tip,
        some "State check failed::getLastCommittedBlockTimeStamp() < block->getTimeStamp()"⟩
    else commitBlocks processing tip blocks

def blockCommitsArrivedThroughCatchup (processing : CommittedBlock → Option String) (tip : Tip) :
    List CommittedBlock → Commits
  | [] => ⟨[], tip, none⟩
  | block :: blocks =>
    if block.blockID ≤ tip.id + 1 then commitBlocks processing tip (block :: blocks)
    else ⟨[], tip,
      some "State check failed::blocks->at( 0 )->getBlockID() <= getLastCommittedBlockID() + 1"⟩

/-- `sync`, from the response on. -/
def sync (response : Json) (data : Option Bytes) (processing : CommittedBlock → Option String)
    (tip : Tip) : EStateM String SessionCache Commits :=
  match response.getUint64 "status" with
  | .error e => throw e
  | .ok status =>
    if status = 4 then return ⟨[], tip, none⟩
    else if status ≠ 1 then throw "Server error in catchup response:"
    else do
      let blocks ← (readMissingBlocks n maxCatchupDownloadBytes response data).adaptExcept
        fun _ => "Catchupc step 3: can not read missing blocks"
      return blockCommitsArrivedThroughCatchup processing tip blocks

end Client

/-! ### What was checked -/

section Checked
variable {n : Node} {block : CommittedBlock} {c c' : SessionCache} {t tip : Tip}
  {processing : CommittedBlock → Option String} {blocks : List CommittedBlock}

theorem of_mem_commitBlocks (h : (t, block) ∈ (commitBlocks processing tip blocks).passed) :
    block ∈ blocks ∧ block.blockID = t.id + 1 ∧ t.stamp.lt block.getTimeStamp = true := by
  induction blocks generalizing tip with
  | nil => cases h
  | cons first rest ih =>
    have hlater : ∀ {tip' : Tip}, (t, block) ∈ (commitBlocks processing tip' rest).passed →
        block ∈ first :: rest ∧ block.blockID = t.id + 1 ∧ t.stamp.lt block.getTimeStamp = true :=
      fun hmem => (ih hmem).imp_left (List.mem_cons_of_mem first)
    unfold commitBlocks at h
    split_ifs at h with hnext hstamp
    · cases hprocessing : processing first with
      | some e =>
        rw [hprocessing] at h
        cases List.mem_singleton.mp h
        exact ⟨List.mem_cons_self, hnext, hstamp⟩
      | none =>
        rw [hprocessing] at h
        rcases List.mem_cons.mp h with heq | hmem
        · cases heq
          exact ⟨List.mem_cons_self, hnext, hstamp⟩
        · exact hlater hmem
    · cases h
    · exact hlater h

theorem of_mem_blockCommitsArrivedThroughCatchup
    (h : (t, block) ∈ (blockCommitsArrivedThroughCatchup processing tip blocks).passed) :
    block ∈ blocks ∧ block.blockID = t.id + 1 ∧ t.stamp.lt block.getTimeStamp = true := by
  cases blocks with
  | nil => cases h
  | cons first rest =>
    dsimp only [blockCommitsArrivedThroughCatchup] at h
    split_ifs at h
    · exact of_mem_commitBlocks h
    · cases h

theorem of_readMissingBlocks {maxBytes : ℕ} {response : Json} {data : Option Bytes}
    (h : (readMissingBlocks n maxBytes response data).run c = .ok blocks c') :
    ∃ blockSizes totalSize serializedBlocks,
      parseBlockSizes maxBytes response = .ok (blockSizes, totalSize) ∧
      data = some serializedBlocks ∧ ∀ block ∈ blocks, ∃ k index size c₁, blocks[k]? = some block ∧
        (n.readBlock serializedBlocks index size).run
          (n.cacheAt serializedBlocks 1 blockSizes k c) = .ok block c₁ := by
  unfold readMissingBlocks at h
  cases hsizes : parseBlockSizes maxBytes response with
  | error e =>
    rw [hsizes] at h
    cases h
  | ok sizes =>
    obtain ⟨blockSizes, totalSize⟩ := sizes
    rw [hsizes] at h
    cases data with
    | none => cases h
    | some serializedBlocks =>
      refine ⟨blockSizes, totalSize, serializedBlocks, rfl, rfl, fun block hblock => ?_⟩
      dsimp only at h
      split_ifs at h
      · cases h
      · obtain ⟨read, c₁, hread, h₁⟩ := run_bind_eq_ok.mp h
        split_ifs at h₁
        · cases h₁
        · cases h₁
          exact BlockReader.of_deserializeBlockList hread block hblock

/-- A block that was passed on follows the last one, and was read from what the server
sent, with the session keys that the blocks before it left. -/
theorem read_of_mem_passed {maxBytes : ℕ} {response : Json} {data : Option Bytes}
    {commits : Commits}
    (h : result? (sync n maxBytes response data processing tip) c = some commits)
    (hpassed : (t, block) ∈ commits.passed) :
    block.blockID = t.id + 1 ∧ t.stamp.lt block.getTimeStamp = true ∧
      ∃ blocks blockSizes totalSize serializedBlocks k index size c₁,
        result? (readMissingBlocks n maxBytes response data) c = some blocks ∧
        parseBlockSizes maxBytes response = .ok (blockSizes, totalSize) ∧
        data = some serializedBlocks ∧ blocks[k]? = some block ∧
        (n.readBlock serializedBlocks index size).run
          (n.cacheAt serializedBlocks 1 blockSizes k c) = .ok block c₁ := by
  have hrun := run_of_result? h
  unfold sync at hrun
  cases hstatus : response.getUint64 "status" with
  | error e =>
    rw [hstatus] at hrun
    cases hrun
  | ok status =>
    rw [hstatus] at hrun
    dsimp only at hrun
    split_ifs at hrun
    · cases hrun
      cases hpassed
    · cases hrun
    · obtain ⟨blocks, c₁, hread, hreturn⟩ := run_bind_eq_ok.mp hrun
      cases hreturn
      obtain ⟨hmem, hnext, hstamp⟩ := of_mem_blockCommitsArrivedThroughCatchup hpassed
      have hmissing := run_adaptExcept_eq_ok.mp hread
      have hresult : result? (readMissingBlocks n maxBytes response data) c = some blocks := by
        rw [result?, hmissing]
      obtain ⟨blockSizes, totalSize, serializedBlocks, hsizes, hdata, hblocks⟩ :=
        of_readMissingBlocks hmissing
      obtain ⟨k, index, size, c₂, hk, hblock⟩ := hblocks block hmem
      exact ⟨hnext, hstamp, blocks, blockSizes, totalSize, serializedBlocks, k, index, size, c₂,
        hresult, hsizes, hdata, hk, hblock⟩

end Checked

end SkaleConsensus.Catchup
