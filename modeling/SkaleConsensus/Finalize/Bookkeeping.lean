import SkaleConsensus.Finalize.Rejected

/-! Which fragments are still to be asked for.

A list of fragments knows the indexes that are missing, and each call of `addFragment` gives the
thread that made it the index to ask for next. Zero ends the thread: there is nothing left. The
indexes that are stored and those that are missing stay a partition of all of them. But a fragment
that is here already is answered with zero, also if others are missing, and then the thread ends
before the list is complete (`booked_iff_fresh`). -/
namespace SkaleConsensus.Finalize
open Library BlockProposalFragmentList

/-- A list, and what the last call of `addFragment` left in `nextIndex`. -/
structure Collecting where
  list : BlockProposalFragmentList
  nextIndex : Option ℕ

/-- A call of `addFragment`, with the number that `nextIndexToRetrieve` draws. -/
structure AddCall where
  fragment : BlockProposalFragment
  random : ℕ

/-- Calls that return. -/
def collecting (blockID totalFragments : ℕ) : Machine Collecting AddCall where
  initial := ⟨.empty blockID totalFragments, none⟩
  step call s :=
    match (addFragmentInPlace call.fragment call.random).run s.list with
    | .ok nextIndex list => some ⟨list, some nextIndex⟩
    | .error _ _ => none

namespace Collecting

/-- What the threads rely on. -/
structure Booked (s : Collecting) : Prop where
  /-- Every index is stored or missing, and not both. -/
  partitioned : s.list.Partitioned
  /-- The next index is zero if the list is complete, and else one that is missing. -/
  ended : ∀ nextIndex ∈ s.nextIndex, nextIndex = 0 ↔ s.list.isComplete = true
  missing : ∀ nextIndex ∈ s.nextIndex, nextIndex ≠ 0 → nextIndex ∈ s.list.missingFragments

end Collecting

/-- A fragment that is here already comes after the list is complete. -/
def AddCall.Fresh (call : AddCall) (s : Collecting) : Prop :=
  s.list.fragments.contains call.fragment.fragmentIndex = true → s.list.isComplete = true

section Step
variable {blockID totalFragments : ℕ} {l l' : BlockProposalFragmentList} {s s' : Collecting}
  {call : AddCall}

/-- What `addFragment` leaves in `nextIndex`. -/
theorem next_of_addFragment {f : BlockProposalFragment} {random next : ℕ}
    (h : l.addFragment f random = .ok (next, l')) :
    next = if l.fragments.contains f.fragmentIndex = true ∨ l'.isComplete = true then 0
      else l'.nextIndexToRetrieve random := by
  cases (addFragment_eq_ok.mp h).2 with
  | here hhere hnext _ => rw [hnext, if_pos (.inl hhere)]
  | last _ _ hcomplete hnext hlist => rw [hnext, hlist, if_pos (.inr hcomplete)]
  | next hnew _ hcomplete _ _ hnext hlist =>
    rw [hnext, hlist, if_neg (by simp [hnew, hcomplete])]

theorem nextIndexToRetrieve_mem (h : l.missingFragments ≠ []) (random : ℕ) :
    l.nextIndexToRetrieve random ∈ l.missingFragments := by
  unfold nextIndexToRetrieve
  rw [List.getD_eq_getElem _ _ (Nat.mod_lt _ (List.length_pos_of_ne_nil h))]
  exact List.getElem_mem _

/-- A call that returns is one of `addFragment`. -/
theorem addFragment_of_step (hl : s.list.Partitioned)
    (h : (collecting blockID totalFragments).step call s = some s') :
    ∃ next, s.list.addFragment call.fragment call.random = .ok (next, s'.list) ∧
      s'.nextIndex = some next := by
  unfold collecting at h
  dsimp only at h
  rw [addFragmentInPlace_run hl] at h
  cases hadd : s.list.addFragment call.fragment call.random with
  | error e =>
    rw [hadd] at h
    cases h
  | ok added =>
    rw [hadd] at h
    cases h
    exact ⟨added.1, rfl, rfl⟩

theorem booked_iff {next : ℕ} (hl : s.list.Partitioned) (hnext : s.nextIndex = some next) :
    s.Booked ↔ (next = 0 ↔ s.list.isComplete = true) ∧
      (next ≠ 0 → next ∈ s.list.missingFragments) := by
  constructor
  · exact fun h => ⟨h.ended next hnext, h.missing next hnext⟩
  · rintro ⟨hended, hmissing⟩
    refine ⟨hl, fun nextIndex hmem => ?_, fun nextIndex hmem => ?_⟩
    · cases hmem.symm.trans hnext
      exact hended
    · cases hmem.symm.trans hnext
      exact hmissing

theorem nextIndexToRetrieve_booked (hl : l.Partitioned) (hcomplete : l.isComplete = false)
    (random : ℕ) :
    l.nextIndexToRetrieve random ≠ 0 ∧ l.nextIndexToRetrieve random ∈ l.missingFragments := by
  have hsome : l.missingFragments ≠ [] := fun hnone => by
    cases hcomplete.symm.trans (hl.counted.isComplete hnone)
  have hmem := nextIndexToRetrieve_mem hsome random
  exact ⟨Nat.one_le_iff_ne_zero.mp ((hl.missing _).mp hmem).1.1, hmem⟩

theorem booked_step_iff (hl : s.list.Partitioned)
    (h : (collecting blockID totalFragments).step call s = some s') :
    s'.list.Partitioned ∧ (s'.Booked ↔ call.Fresh s) := by
  obtain ⟨next, hadd, hnext⟩ := addFragment_of_step hl h
  have hl' := hl.addFragment hadd
  have hvalue := next_of_addFragment hadd
  refine ⟨hl', ?_⟩
  rw [booked_iff hl' hnext, hvalue]
  cases (addFragment_eq_ok.mp hadd).2 with
  | here hhere _ hlist =>
    -- Nothing was added: the list is as complete as it was, and the answer is zero.
    have hsame : s'.list.isComplete = s.list.isComplete := by
      rw [hlist]
      rfl
    rw [if_pos (.inl hhere), hsame]
    simp [AddCall.Fresh, hhere]
  | last hnew | next hnew =>
    have hfresh : call.Fresh s := fun htrue => by cases hnew.symm.trans htrue
    refine iff_of_true ?_ hfresh
    cases hcomplete : s'.list.isComplete with
    | true => simp
    | false =>
      rw [if_neg (by simp [hnew])]
      obtain ⟨hne, hmem⟩ := nextIndexToRetrieve_booked hl' hcomplete call.random
      exact ⟨iff_of_false hne Bool.false_ne_true, fun _ => hmem⟩

end Step

/-- In a run of calls that return, the books are kept throughout exactly if no fragment comes a
second time before the list is complete. -/
theorem booked_iff_fresh (blockID totalFragments : ℕ) (calls : List AddCall) (s : Collecting)
    (hrun : (collecting blockID totalFragments).run calls = some s) :
    (collecting blockID totalFragments).Always Collecting.Booked
        (collecting blockID totalFragments).initial calls ↔
      (collecting blockID totalFragments).Keeps AddCall.Fresh
        (collecting blockID totalFragments).initial calls := by
  have hempty := partitioned_empty blockID totalFragments
  exact Machine.always_iff_keeps (I := fun s => s.list.Partitioned)
    (fun _ _ _ hl _ hstep => booked_step_iff hl hstep) hempty ⟨hempty, nofun, nofun⟩ hrun

/-! ### Two runs -/

def half (index : ℕ) : AddCall := ⟨⟨1, index, [60, 7, 62], 2, [49]⟩, 0⟩

instance decidableFresh (call : AddCall) (s : Collecting) : Decidable (call.Fresh s) :=
  inferInstanceAs (Decidable (_ → _))

theorem booked_halves :
    ∃ s, (collecting 1 2).run [half 2, half 1, half 2] = some s ∧ s.list.isComplete = true ∧
      (collecting 1 2).Always Collecting.Booked (collecting 1 2).initial
        [half 2, half 1, half 2] := by
  obtain ⟨s, hrun, hcomplete⟩ : ∃ s, (collecting 1 2).run [half 2, half 1, half 2] = some s ∧
      s.list.isComplete = true :=
    Machine.exists_run (by decide +kernel)
  exact ⟨s, hrun, hcomplete, (booked_iff_fresh 1 2 _ s hrun).mpr (by decide +kernel)⟩

/-- The first of two fragments comes from two nodes: the second thread is told that nothing is
left, and the other fragment is missing. -/
theorem duplicate_ends_thread :
    ∃ s, (collecting 1 2).run [half 1, half 1] = some s ∧ s.nextIndex = some 0 ∧
      s.list.missingFragments = [2] ∧ s.list.isComplete = false ∧ ¬ s.Booked := by
  obtain ⟨s, hrun, hnext, hmissing, hcomplete⟩ : ∃ s,
      (collecting 1 2).run [half 1, half 1] = some s ∧ s.nextIndex = some 0 ∧
      s.list.missingFragments = [2] ∧ s.list.isComplete = false :=
    Machine.exists_run (by decide +kernel)
  refine ⟨s, hrun, hnext, hmissing, hcomplete, fun hbooked => ?_⟩
  cases hcomplete.symm.trans ((hbooked.ended 0 hnext).mp rfl)

end SkaleConsensus.Finalize
