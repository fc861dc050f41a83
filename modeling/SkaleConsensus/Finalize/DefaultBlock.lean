import SkaleConsensus.Finalize.Commit
import SkaleConsensus.Proposal.Clock

/-! The time stamp of a default block.

A default block is a millisecond later than the last block. The milliseconds carry into the
seconds at 999 only, and are a `uint32_t` in the proposal that is made; those of the last
block were a `uint32_t` that nobody compared with anything. So after a block with the largest
of them the default block is not later, and the check in `blockCommitArrived` rejects it;
and after the last millisecond of the last second there is none to be made. -/
namespace SkaleConsensus.Finalize
open Library Block Crypto Proposal BlockProposal

section Default
variable {n : Node} {s : NodeState} {last : TimeStamp} {schainID : SchainID} {blockId : ℕ}
  {p : BlockProposal} {thresholdSig : Bytes} {daSig : Option DASignature}

/-- A default block can be made after this one, and is later. -/
def Succeeds (last : TimeStamp) : Prop :=
  last.ms ≠ 2 ^ 32 - 1 ∧ ¬ (last.s = 2 ^ 64 - 1 ∧ last.ms = 999)

theorem getTimeStamp_createDefaultEmpty (h : createDefaultEmpty schainID last blockId = .ok p) :
    p.getTimeStamp = ⟨last.incrementByMs.s, last.incrementByMs.ms % 2 ^ 32⟩ := by
  unfold getTimeStamp
  rw [of_make_eq_ok h]
  rfl

theorem proposerIndex_createDefaultEmpty
    (h : createDefaultEmpty schainID last blockId = .ok p) : p.proposerIndex = 0 := by
  rw [of_make_eq_ok h]
  rfl

theorem exists_createDefaultEmpty (hchain : schainID < 2 ^ 64) (hid : blockId < 2 ^ 64)
    (hs : last.incrementByMs.s < 2 ^ 64) (hmodern : MODERN_TIME < last.incrementByMs.s) :
    ∃ p, createDefaultEmpty schainID last blockId = .ok p := by
  have hms : last.incrementByMs.ms % 2 ^ 32 < 2 ^ 32 := Nat.mod_lt _ (by decide)
  have hsigned : textBytes "EMPTY" ≠ [] := by decide
  refine ⟨⟨⟨schainID, 0, blockId, 0, [], 0, last.incrementByMs.s,
    last.incrementByMs.ms % 2 ^ 32, textBytes "EMPTY"⟩, ?_, fun _ => rfl, hmodern, hsigned⟩, ?_⟩
  · exact ⟨hchain, (by decide : 0 < 2 ^ 64), hid, (by decide : 0 < 2 ^ 64),
      (by decide : 0 < 2 ^ 64), hs, hms⟩
  · exact BlockProposal.make_eq_ok_iff.mpr rfl

/-- After a block of the chain a later default block is made exactly if it `Succeeds`. -/
theorem createDefaultEmpty_lt_iff (hchain : schainID < 2 ^ 64) (hid : blockId < 2 ^ 64)
    (block : CommittedBlock) :
    (∃ p, createDefaultEmpty schainID block.getTimeStamp blockId = .ok p ∧
      block.getTimeStamp.lt p.getTimeStamp = true) ↔ Succeeds block.getTimeStamp := by
  obtain ⟨-, -, -, -, -, hs, hms⟩ := block.fits
  have hmodern := block.modern
  have hcarry : block.timeStampMs = 999 →
      block.getTimeStamp.incrementByMs = ⟨(block.timeStamp + 1) % 2 ^ 64, 0⟩ := fun h => if_pos h
  have hnext : block.timeStampMs ≠ 999 →
      block.getTimeStamp.incrementByMs = ⟨block.timeStamp, (block.timeStampMs + 1) % 2 ^ 64⟩ :=
    fun h => if_neg h
  have hlt : ∀ r : TimeStamp, block.getTimeStamp.lt r = true ↔
      block.timeStamp < r.s ∨ block.timeStamp = r.s ∧ block.timeStampMs < r.ms :=
    fun _ => TimeStamp.lt_iff
  show _ ↔ block.timeStampMs ≠ 2 ^ 32 - 1 ∧
    ¬ (block.timeStamp = 2 ^ 64 - 1 ∧ block.timeStampMs = 999)
  constructor
  · rintro ⟨p, hp, hlater⟩
    rw [getTimeStamp_createDefaultEmpty hp, hlt] at hlater
    by_cases h999 : block.timeStampMs = 999
    · rw [hcarry h999] at hlater
      dsimp only at hlater
      omega
    · rw [hnext h999] at hlater
      dsimp only at hlater
      omega
  · rintro ⟨hlargest, hlast⟩
    obtain ⟨p, hp⟩ : ∃ p, createDefaultEmpty schainID block.getTimeStamp blockId =
        .ok p := by
      apply exists_createDefaultEmpty hchain hid
      all_goals
        by_cases h999 : block.timeStampMs = 999
        · rw [hcarry h999]
          dsimp only
          omega
        · rw [hnext h999]
          assumption
    refine ⟨p, hp, ?_⟩
    rw [getTimeStamp_createDefaultEmpty hp, hlt]
    by_cases h999 : block.timeStampMs = 999
    · rw [hcarry h999]
      dsimp only
      omega
    · rw [hnext h999]
      dsimp only
      omega

theorem blockCommitArrived_default (hsync : n.cm.isSyncNode = false) (hsig : thresholdSig ≠ [])
    (hp : createDefaultEmpty n.schainID s.lastCommittedBlockTimeStamp
      (s.lastCommittedBlockID + 1) = .ok p)
    (hlater : s.lastCommittedBlockTimeStamp.lt p.getTimeStamp = true) :
    ∃ block, blockCommitArrived n (s.lastCommittedBlockID + 1) 0 thresholdSig s daSig =
      .ok (some block) := by
  have hindex := proposerIndex_createDefaultEmpty hp
  have htext : daSigText p daSig = .ok [] := by
    cases daSig with
    | none => rfl
    | some sig => exact if_neg (by rw [hindex]; decide)
  have hmake : CommittedBlock.make p.toProposalFields thresholdSig [] =
      .ok ⟨p, thresholdSig, [], hsig⟩ := by
    unfold CommittedBlock.make
    refine checkArgument_bind_eq_ok.mpr ⟨not_isEmpty p.signed, ?_⟩
    rw [dif_pos hsig]
    exact bind_eq_ok.mpr ⟨p, BlockProposal.make_eq_ok_iff.mpr p.rooted_eq.symm, rfl⟩
  refine ⟨⟨p, thresholdSig, [], hsig⟩, ?_⟩
  unfold blockCommitArrived
  refine checkArgument_bind_eq_ok.mpr ⟨Bool.or_true _, ?_⟩
  refine checkState_bind_eq_ok.mpr ⟨by rw [hsync]; rfl, ?_⟩
  rw [if_neg (Nat.not_succ_le_self _)]
  refine checkState_bind_eq_ok.mpr ⟨by simp, ?_⟩
  refine bind_eq_ok.mpr ⟨p, hp, ?_⟩
  refine bind_eq_ok.mpr ⟨⟨p, thresholdSig, [], hsig⟩, ?_, ?_⟩
  · refine checkArgument_bind_eq_ok.mpr ⟨by simp [hindex], ?_⟩
    exact bind_eq_ok.mpr ⟨[], htext, hmake⟩
  · exact checkState_bind_eq_ok.mpr ⟨hlater, rfl⟩

/-- After a committed block, the default block for the next id is later and
`blockCommitArrived` passes it on, exactly if the milliseconds of the committed block are
not the largest and it is not at the end of time. -/
theorem default_passes_iff_succeeds {block : CommittedBlock}
    (hlast : s.lastCommittedBlockTimeStamp = block.getTimeStamp)
    (hsync : n.cm.isSyncNode = false) (hsig : thresholdSig ≠ []) (hchain : n.schainID < 2 ^ 64)
    (hid : s.lastCommittedBlockID + 1 < 2 ^ 64) :
    ((∃ p, createDefaultEmpty n.schainID s.lastCommittedBlockTimeStamp
        (s.lastCommittedBlockID + 1) = .ok p ∧
        s.lastCommittedBlockTimeStamp.lt p.getTimeStamp = true) ∧
      ∃ next, blockCommitArrived n (s.lastCommittedBlockID + 1) 0 thresholdSig s daSig =
        .ok (some next)) ↔ Succeeds block.getTimeStamp := by
  rw [← createDefaultEmpty_lt_iff hchain hid block, ← hlast]
  refine ⟨And.left, fun h => ⟨h, ?_⟩⟩
  obtain ⟨p, hp, hlater⟩ := h
  exact blockCommitArrived_default hsync hsig hp hlater

end Default

/-- A block of node 2's proposal with these milliseconds. -/
def aheadBlock (ms : ℕ) (hms : ms < 2 ^ 32) : CommittedBlock :=
  ⟨aheadProposal ms hms, [1], [2], nofun⟩

def committedAhead (ms : ℕ) (hms : ms < 2 ^ 32) : NodeState :=
  endCommit (aheadBlock ms hms) .genesis

theorem default_passes_iff_succeeds_999 :
    ((∃ p, createDefaultEmpty 1
        (committedAhead 999 (by decide)).lastCommittedBlockTimeStamp 2 = .ok p ∧
        (committedAhead 999 (by decide)).lastCommittedBlockTimeStamp.lt p.getTimeStamp = true) ∧
      ∃ next, blockCommitArrived besideByzantine 2 0 [1] (committedAhead 999 (by decide)) none =
        .ok (some next)) ↔ Succeeds (aheadBlock 999 (by decide)).getTimeStamp :=
  default_passes_iff_succeeds (n := besideByzantine) (s := committedAhead 999 (by decide)) rfl rfl
    (List.cons_ne_nil 1 []) (by decide) (by decide)

/-- Node 1 after it has committed the proposal of node 2 that it has. -/
def commitOfSecond (s : NodeState) : Option NodeState :=
  match blockCommitArrived besideByzantine 1 2 [1] s
    (some (.verified [2] (aheadHash (2 ^ 32 - 1)))) with
  | .ok (some block) => some (endCommit block (startCommit block s))
  | _ => none

def RejectsDefault (s : NodeState) : Prop :=
  blockCommitArrived besideByzantine 2 0 [1] s none = .error
    "State check failed::getLastCommittedBlockTimeStamp() < newCommittedBlock->getTimeStamp()"

instance (s : NodeState) : Decidable (RejectsDefault s) := inferInstanceAs (Decidable (_ = _))

/-- Node 2's proposal with the largest milliseconds is signed for, stored and committed. -/
theorem default_rejected_after_largest :
    ∃ s, (running besideByzantine).run (ownFirst ++
        [.request (aheadRequest (2 ^ 32 - 1)).addFields (MODERN_TIME + 1),
          .finish (aheadRequest (2 ^ 32 - 1)) []]) = some s ∧
      (⟨1, 2⟩, aheadHash (2 ^ 32 - 1)) ∈ s.daSigned ∧
      (commitOfSecond s).isSome = true ∧ ∀ s' ∈ commitOfSecond s,
        s'.lastCommittedBlockID = 1 ∧
        s'.lastCommittedBlockTimeStamp = ⟨MODERN_TIME + 2, 2 ^ 32 - 1⟩ ∧ RejectsDefault s' :=
  Machine.exists_run (by decide +kernel)

end SkaleConsensus.Finalize
