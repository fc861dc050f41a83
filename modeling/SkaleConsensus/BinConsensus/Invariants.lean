import SkaleConsensus.BinConsensus.Effects

/-! What one instance keeps, whatever it is sent.

`ExecInv` needs nothing about the senders: it is about an instance and the
messages, random numbers and estimates it produced itself. Every step preserves
it, so it holds between any two instructions of a handler. -/
namespace SkaleConsensus.BinConsensus
open Library Relation

def Message.isAUX (m : Message) (r : ℕ) : Prop := m.msgType = .auxBroadcast ∧ m.r = r

structure ExecInv (c : Schain) (K : ProtocolKey) (s : Exec) : Prop where
  key : s.inst.key = K
  sentKey : ∀ m ∈ s.sent, m.key = K
  /-- No estimate for a round not yet entered. -/
  future : ∀ r, s.inst.currentRound < r → s.inst.proposals r = none
  bounded : s.inst.currentRound ≤ 100
  /-- Every round entered after the first has its estimate. -/
  entered : ∀ r, 0 < r → r ≤ s.inst.currentRound → s.inst.proposals r ≠ none
  binary : ∀ r v, s.inst.proposals r = some v → ∃ b, v = Value.ofBool b
  carried : ∀ r v, s.inst.proposals (r + 1) = some v → NextEstimate c s r v
  decision : s.inst.isDecided = true → s.inst.decidedRound ≤ s.inst.currentRound ∧
    ∃ random, (s.inst.decidedRound, random) ∈ s.randomDB ∧
      s.inst.decidedValue = Value.ofBool (commonCoinValue random) ∧
      Supports c s.inst s.inst.decidedRound (commonCoinValue random)
  quorum : ∀ r v, v ∈ s.inst.binValues r → isTwoThird c (s.inst.getBVBVoteCount v r) = true
  auxBinary : ∀ m ∈ s.sent, ∀ r, m.isAUX r → m.value ∈ s.inst.binValues r
  /-- One AUX value a round. -/
  auxUnique : ∀ m ∈ s.sent, ∀ m' ∈ s.sent, ∀ r, m.isAUX r → m'.isAUX r → m.value = m'.value

/-- An instance before its first message. -/
def Exec.start (K : ProtocolKey) : Exec := ⟨.create K, [], [], []⟩

theorem ExecInv.start (c : Schain) (K : ProtocolKey) : ExecInv c K (.start K) where
  key := rfl
  sentKey _ hm := absurd hm List.not_mem_nil
  future _ _ := rfl
  bounded := Nat.zero_le _
  entered _ hpos hle := absurd hle (Nat.not_le.mpr hpos)
  binary _ _ h := nomatch h
  carried _ _ h := nomatch h
  decision h := nomatch h
  quorum _ v h := absurd h (Finset.notMem_empty v)
  auxBinary _ hm := absurd hm List.not_mem_nil
  auxUnique _ hm := absurd hm List.not_mem_nil

variable {c : Schain} {me : MessageEnvelope} {K : ProtocolKey} {s s' : Exec}

namespace ExecInv

theorem decidedInTime (hi : ExecInv c K s) :
    s.inst.isDecided = true → s.inst.decidedRound ≤ s.inst.currentRound :=
  fun hd => (hi.decision hd).1

theorem binary_of_nextEstimate (hi : ExecInv c K s) {r : ℕ} {v : Value}
    (h : NextEstimate c s r v) : ∃ b, v = Value.ofBool b := by
  cases h with
  | coin random _ _ => exact ⟨_, rfl⟩
  | supported b _ => exact ⟨b, rfl⟩
  | decided hd _ =>
    obtain ⟨-, random, -, hvalue, -⟩ := hi.decision hd
    exact ⟨_, hvalue⟩

section Step
variable (hi : ExecInv c K s) (h : Effect c me s s')
include hi h

/-- Estimates are never taken back. -/
theorem proposals_kept {r : ℕ} {v : Value}
    (hv : s.inst.proposals r = some v) : s'.inst.proposals r = some v := by
  rcases h.proposals_cases with ⟨hsame, -⟩ | ⟨b, hnew, -, hkept⟩ | ⟨w, hnew, -, -⟩
  · rw [hsame, hv]
  · rw [hnew]
    by_cases hr : r = 0
    · subst hr
      rw [hv] at hkept
      rcases hkept with hnone | hsome
      · cases hnone
      · rw [Function.update_self, hsome]
    · rw [Function.update_of_ne hr, hv]
  · rw [hnew]
    by_cases hr : r = s.inst.currentRound + 1
    · have hnone := hi.future r (by omega)
      rw [hv] at hnone
      cases hnone
    · rw [Function.update_of_ne hr, hv]

theorem future_step (r : ℕ) (hr : s'.inst.currentRound < r) : s'.inst.proposals r = none := by
  have hold : s.inst.proposals r = none := hi.future r (h.grows.currentRound.trans_lt hr)
  rcases h.proposals_cases with ⟨hsame, -⟩ | ⟨b, hnew, -, -⟩ | ⟨w, hnew, hround, -⟩
  · rw [hsame, hold]
  · rw [hnew, Function.update_of_ne (by omega), hold]
  · rw [hnew, Function.update_of_ne (by omega), hold]

theorem bounded_step : s'.inst.currentRound ≤ 100 := by
  have hold := hi.bounded
  rcases h.proposals_cases with ⟨-, hround⟩ | ⟨b, -, hround, -⟩ | ⟨w, -, hround, hlt, -⟩
  · omega
  · omega
  · omega

theorem entered_step (r : ℕ) (hpos : 0 < r)
    (hr : r ≤ s'.inst.currentRound) : s'.inst.proposals r ≠ none := by
  have hold : r ≤ s.inst.currentRound → s'.inst.proposals r ≠ none := by
    intro hle
    obtain ⟨v, hv⟩ := Option.ne_none_iff_exists'.mp (hi.entered r hpos hle)
    rw [hi.proposals_kept h hv]
    exact Option.some_ne_none v
  rcases h.proposals_cases with ⟨-, hround⟩ | ⟨b, -, hround, -⟩ | ⟨w, hnew, hround, -⟩
  · exact hold (hround ▸ hr)
  · exact hold (hround ▸ hr)
  · by_cases hlast : r = s.inst.currentRound + 1
    · rw [hnew, hlast, Function.update_self]
      exact Option.some_ne_none w
    · exact hold (by omega)

theorem binary_step (r : ℕ) (v : Value)
    (hv : s'.inst.proposals r = some v) : ∃ b, v = Value.ofBool b := by
  rcases h.proposals_cases with ⟨hsame, -⟩ | ⟨b, hnew, -, -⟩ | ⟨w, hnew, -, -, hestimate⟩
  · exact hi.binary r v (hsame ▸ hv)
  · rw [hnew] at hv
    by_cases hr : r = 0
    · subst hr
      rw [Function.update_self] at hv
      exact ⟨b, (Option.some.inj hv).symm⟩
    · rw [Function.update_of_ne hr] at hv
      exact hi.binary r v hv
  · rw [hnew] at hv
    by_cases hr : r = s.inst.currentRound + 1
    · subst hr
      rw [Function.update_self] at hv
      cases hv
      exact hi.binary_of_nextEstimate hestimate
    · rw [Function.update_of_ne hr] at hv
      exact hi.binary r v hv

theorem carried_step (r : ℕ) (v : Value)
    (hv : s'.inst.proposals (r + 1) = some v) : NextEstimate c s' r v := by
  rcases h.proposals_cases with ⟨hsame, -⟩ | ⟨b, hnew, -, -⟩ | ⟨w, hnew, -, -, hestimate⟩
  · exact (hi.carried r v (hsame ▸ hv)).mono h.grows
  · rw [hnew, Function.update_of_ne (by omega)] at hv
    exact (hi.carried r v hv).mono h.grows
  · rw [hnew] at hv
    by_cases hr : r = s.inst.currentRound
    · subst hr
      rw [Function.update_self] at hv
      cases hv
      exact hestimate.mono h.grows
    · rw [Function.update_of_ne (by omega)] at hv
      exact (hi.carried r v hv).mono h.grows

theorem decision_step (hd : s'.inst.isDecided = true) :
    s'.inst.decidedRound ≤ s'.inst.currentRound ∧
    ∃ random, (s'.inst.decidedRound, random) ∈ s'.randomDB ∧
      s'.inst.decidedValue = Value.ofBool (commonCoinValue random) ∧
      Supports c s'.inst s'.inst.decidedRound (commonCoinValue random) := by
  have hg := h.grows
  rcases h.decided_cases hd with ⟨hd', hv, hr⟩ | ⟨random, hmem, hsupport, hr, hv⟩
  · obtain ⟨hle, random, hmem, hvalue, hsupport⟩ := hi.decision hd'
    rw [hv, hr]
    exact ⟨hle.trans hg.currentRound, random, hg.randomDB hmem, hvalue, hsupport.mono hg⟩
  · rw [hr]
    exact ⟨hg.currentRound, random, hg.randomDB hmem, hv, hsupport.mono hg⟩

theorem quorum_step (r : ℕ) (v : Value)
    (hv : v ∈ s'.inst.binValues r) : isTwoThird c (s'.inst.getBVBVoteCount v r) = true := by
  have hcount : s.inst.getBVBVoteCount v r ≤ s'.inst.getBVBVoteCount v r :=
    Finset.card_le_card (h.grows.bvbVotes v.toBool r)
  rcases h.binValues_cases hv with hold | ⟨-, hq⟩
  · exact isTwoThird_mono hcount (hi.quorum r v hold)
  · exact isTwoThird_mono hcount hq

theorem auxBinary_step (m : Message) (hm : m ∈ s'.sent)
    (r : ℕ) (haux : m.isAUX r) : m.value ∈ s'.inst.binValues r := by
  have hold : m ∈ s.sent → m.value ∈ s'.inst.binValues r :=
    fun hmem => h.grows.binValues r (hi.auxBinary m hmem r haux)
  rcases h.sent_cases with hsame | ⟨new, hsent, -, hreason⟩
  · exact hold (hsame ▸ hm)
  · rw [hsent] at hm
    rcases List.mem_append.mp hm with hmem | hnew
    · exact hold hmem
    · obtain rfl := List.mem_singleton.mp hnew
      rcases hreason with ⟨hbvb, -⟩ | ⟨-, -, hbin⟩
      · exact absurd (hbvb.symm.trans haux.1) (by decide)
      · exact haux.2 ▸ hbin

/-- The first AUX message of a round finds no binary value, so no earlier AUX. -/
theorem auxUnique_step (m : Message) (hm : m ∈ s'.sent)
    (m' : Message) (hm' : m' ∈ s'.sent) (r : ℕ) (haux : m.isAUX r) (haux' : m'.isAUX r) :
    m.value = m'.value := by
  rcases h.sent_cases with hsame | ⟨new, hsent, -, hreason⟩
  · exact hi.auxUnique m (hsame ▸ hm) m' (hsame ▸ hm') r haux haux'
  · rw [hsent] at hm hm'
    -- an old message of the round rules out that the new one is an AUX of the round
    have hclash : ∀ old ∈ s.sent, old.isAUX r → new.isAUX r → False := by
      intro old hmem hold hnew
      rcases hreason with ⟨hbvb, -⟩ | ⟨-, hempty, -⟩
      · exact absurd (hbvb.symm.trans hnew.1) (by decide)
      · have hbin := hi.auxBinary old hmem r hold
        rw [← hnew.2, hempty] at hbin
        exact Finset.notMem_empty _ hbin
    rcases List.mem_append.mp hm with hmem | hnew <;>
      rcases List.mem_append.mp hm' with hmem' | hnew'
    · exact hi.auxUnique m hmem m' hmem' r haux haux'
    · exact (hclash m hmem haux (List.mem_singleton.mp hnew' ▸ haux')).elim
    · exact (hclash m' hmem' haux' (List.mem_singleton.mp hnew ▸ haux)).elim
    · rw [List.mem_singleton.mp hnew, List.mem_singleton.mp hnew']

theorem step : ExecInv c K s' where
  key := h.grows.key.trans hi.key
  sentKey m hm := by
    rcases h.sent_cases with hsame | ⟨new, hsent, hkey, -⟩
    · exact hi.sentKey m (hsame ▸ hm)
    · rw [hsent] at hm
      rcases List.mem_append.mp hm with hmem | hnew
      · exact hi.sentKey m hmem
      · rw [List.mem_singleton.mp hnew, hkey, hi.key]
  future := hi.future_step h
  bounded := hi.bounded_step h
  entered := hi.entered_step h
  binary := hi.binary_step h
  carried := hi.carried_step h
  decision := hi.decision_step h
  quorum := hi.quorum_step h
  auxBinary := hi.auxBinary_step h
  auxUnique := hi.auxUnique_step h

end Step

theorem steps (hi : ExecInv c K s) (h : Effects c me s s') : ExecInv c K s' := by
  induction h with
  | refl => exact hi
  | tail _ hstep ih => exact ih.step hstep

end ExecInv

end SkaleConsensus.BinConsensus
