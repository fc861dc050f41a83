import Mathlib.Data.Nat.Notation
import SkaleConsensus.Library.Program

/-! A lock that is taken and released by hand.

A program takes a lock inside a block whose handler cleans up, releases the lock and throws again.
It is balanced if it has released the lock as often as it has taken it. Two things can go wrong in
the handler: what it catches was thrown before the lock was taken, and then it releases a lock that
is not held; or the cleaning up throws, and then the lock is not released. `balanced_guarded_iff`
says that nothing else can. -/
namespace SkaleConsensus.Library

section ManualLock
variable {ε σ α β : Type} (count : σ → ℕ × ℕ)

/-- The counts are of how often the lock was taken and released. -/
def Balanced (s t : σ) : Prop :=
  count t = count s ∨ count t = ((count s).1 + 1, (count s).2 + 1)

/-- Leaves the lock alone. -/
def Quiet (x : EStateM ε σ α) : Prop := ∀ s, count (finalState x s) = count s

/-- Takes the lock if it says so. -/
def Takes (x : EStateM ε σ Bool) : Prop :=
  ∀ s, match x.run s with
    | .ok true t => count t = ((count s).1 + 1, (count s).2)
    | .ok false t => count t = count s
    | .error _ t => count t = count s

/-- Releases the lock if it returns. -/
def Releases (x : EStateM ε σ α) : Prop :=
  ∀ s, match x.run s with
    | .ok _ t => count t = ((count s).1, (count s).2 + 1)
    | .error _ t => count t = count s

variable {count} {x : EStateM ε σ α} {f : α → EStateM ε σ β} {p : Prop}

/-! ### Putting programs together -/

theorem quiet_pure (a : α) : Quiet count (pure a : EStateM ε σ α) := fun _ => rfl

theorem quiet_throw (e : ε) : Quiet count (throw e : EStateM ε σ α) := fun _ => rfl

theorem Quiet.bind (hx : Quiet count x) (hf : ∀ a, Quiet count (f a)) : Quiet count (x >>= f) :=
  fun s => finalState_bind_rel (R := fun s t => count t = count s) (fun h₁ h₂ => h₂.trans h₁) (hx s)
    fun a t _ => hf a t

theorem quiet_get_bind {k : σ → EStateM ε σ β} (h : ∀ s, Quiet count (k s)) :
    Quiet count (get >>= k) := fun s => h s s

theorem Quiet.of_ok {s t : σ} {a : α} (hx : Quiet count x) (h : x.run s = .ok a t) :
    count t = count s := by
  rw [← hx s, finalState_of_ok h]

theorem Quiet.of_error {s t : σ} {e : ε} (hx : Quiet count x) (h : x.run s = .error e t) :
    count t = count s := by
  rw [← hx s, finalState_of_error h]

theorem Quiet.ite [Decidable p] {y : EStateM ε σ α} (hx : Quiet count x) (hy : Quiet count y) :
    Quiet count (if p then x else y) := by
  split_ifs
  · exact hx
  · exact hy

/-- A quiet program may come before. -/
theorem Quiet.bind_releases (hx : Quiet count x) (hf : ∀ a, Releases count (f a)) :
    Releases count (x >>= f) := by
  intro s
  cases hrun : x.run s with
  | error e t =>
    rw [run_bind_of_error hrun]
    exact hx.of_error hrun
  | ok a t =>
    have hafter := hf a t
    rw [run_bind_of_ok hrun]
    rw [hx.of_ok hrun] at hafter
    exact hafter

theorem releases_get_bind {k : σ → EStateM ε σ β} (h : ∀ s, Releases count (k s)) :
    Releases count (get >>= k) := fun s => h s s

theorem Releases.bind_pure {b : β} (hx : Releases count x) :
    Releases count (x >>= fun _ => pure b) := by
  intro s
  have hafter := hx s
  cases hrun : x.run s with
  | error e t =>
    rw [hrun] at hafter
    rw [run_bind_of_error hrun]
    exact hafter
  | ok a t =>
    rw [hrun] at hafter
    rw [run_bind_of_ok hrun]
    exact hafter

theorem Quiet.bind_takes {k : α → EStateM ε σ Bool} (hx : Quiet count x)
    (hk : ∀ a, Takes count (k a)) : Takes count (x >>= k) := by
  intro s
  cases hrun : x.run s with
  | error e t =>
    rw [run_bind_of_error hrun]
    exact hx.of_error hrun
  | ok a t =>
    have hafter := hk a t
    rw [run_bind_of_ok hrun]
    rw [hx.of_ok hrun] at hafter
    exact hafter

/-- A second try, if the first one fails. -/
theorem Takes.or_else {y z : EStateM ε σ Bool} (hy : Takes count y) (hz : Takes count z) :
    Takes count (y >>= fun locked => if locked then pure true else z) := by
  intro s
  have hfirst := hy s
  cases hrun : y.run s with
  | error e t =>
    rw [hrun] at hfirst
    rw [run_bind_of_error hrun]
    exact hfirst
  | ok locked t =>
    rw [hrun] at hfirst
    rw [run_bind_of_ok hrun]
    cases locked with
    | true => exact hfirst
    | false =>
      have hsecond := hz t
      rw [hfirst] at hsecond
      exact hsecond

theorem Quiet.takes_false {y : EStateM ε σ Unit} (hy : Quiet count y) :
    Takes count (y >>= fun _ => pure false) :=
  hy.bind_takes fun _ _ => rfl

theorem Releases.ite [Decidable p] {y : EStateM ε σ α} (hx : Releases count x)
    (hy : Releases count y) : Releases count (if p then x else y) := by
  split_ifs
  · exact hx
  · exact hy

/-- A program that leaves the lock alone before it comes to one that uses it. -/
theorem Quiet.balanced_bind_iff (hx : Quiet count x) (s : σ) :
    Balanced count s (finalState (x >>= f) s) ↔
      ∀ a t, x.run s = .ok a t → Balanced count t (finalState (f a) t) := by
  cases hrun : x.run s with
  | error e t =>
    rw [finalState_bind_of_error hrun]
    exact iff_of_true (.inl (hx.of_error hrun)) nofun
  | ok a t =>
    rw [finalState_bind_of_ok hrun]
    have hcount := hx.of_ok hrun
    constructor
    · rintro h _ _ ⟨⟩
      unfold Balanced at h ⊢
      rw [hcount]
      exact h
    · intro h
      have hbalanced := h a t rfl
      unfold Balanced at hbalanced ⊢
      rw [← hcount]
      exact hbalanced

/-- The lock was not taken: it must not be released. -/
theorem balanced_iff_not_released {s t : σ} [Decidable p]
    (h : count t = if p then ((count s).1, (count s).2 + 1) else count s) :
    Balanced count s t ↔ ¬ p := by
  unfold Balanced
  rw [h]
  split_ifs with hp
  · refine iff_of_false (fun hcount => ?_) (not_not_intro hp)
    rcases hcount with hcount | hcount
    · exact absurd (congrArg Prod.snd hcount) (Nat.succ_ne_self _)
    · exact absurd (congrArg Prod.fst hcount) (Nat.succ_ne_self _).symm
  · exact iff_of_true (.inl rfl) hp

/-- The lock was taken: it must be released. -/
theorem balanced_iff_released {s t : σ} [Decidable p]
    (h : count t = if p then ((count s).1 + 1, (count s).2 + 1) else ((count s).1 + 1, (count s).2))
    : Balanced count s t ↔ p := by
  unfold Balanced
  rw [h]
  split_ifs with hp
  · exact iff_of_true (.inr rfl) hp
  · refine iff_of_false (fun hcount => ?_) hp
    rcases hcount with hcount | hcount
    · exact absurd (congrArg Prod.fst hcount) (Nat.succ_ne_self _)
    · exact absurd (congrArg Prod.snd hcount) (Nat.succ_ne_self _).symm

/-! ### The handler -/

/-- What a handler makes of the end of a program. -/
def handle (caught : ε → Bool) (handler : ε → EStateM ε σ α) :
    EStateM.Result ε σ α → EStateM.Result ε σ α
  | .ok a t => .ok a t
  | .error e t => if caught e then (handler e).run t else .error e t

/-- `try { if ( enter ) return hold; return otherwise; } catch { cleanup; release; throw; }`. -/
def guarded (caught : ε → Bool) (enter : EStateM ε σ Bool) (hold : EStateM ε σ α) (otherwise : α)
    (cleanup release : EStateM ε σ Unit) (rethrow : ε → ε) : EStateM ε σ α := fun s =>
  handle caught (fun e => cleanup >>= fun _ => release >>= fun _ => throw (rethrow e))
    ((enter >>= fun locked => if locked then hold else pure otherwise).run s)

/-- The handler cleans up exactly where the lock is held: nothing that it catches was thrown before
the lock was taken, unless the cleanup throws too; and what is thrown with the lock held is caught,
and the cleanup then returns. -/
structure Covered (caught : ε → Bool) (enter : EStateM ε σ Bool) (hold : EStateM ε σ α)
    (cleanup : EStateM ε σ Unit) (s : σ) : Prop where
  entering : ∀ e t, enter.run s = .error e t → caught e = true → returns cleanup t = false
  holding : ∀ t e u, enter.run s = .ok true t → hold.run t = .error e u →
    caught e = true ∧ returns cleanup u = true

section Guarded
variable {caught : ε → Bool} {enter : EStateM ε σ Bool} {hold : EStateM ε σ α} {otherwise : α}
  {cleanup release : EStateM ε σ Unit} {rethrow : ε → ε} {s t : σ} {e : ε}

theorem count_handler (hcleanup : Quiet count cleanup) (hrelease : Releases count release)
    (hreturns : ∀ u, returns release u = true) :
    count (finalState (cleanup >>= fun _ => release >>= fun _ =>
        (throw (rethrow e) : EStateM ε σ α)) t) =
      if returns cleanup t = true then ((count t).1, (count t).2 + 1) else count t := by
  split_ifs with hclean
  · obtain ⟨⟨⟩, hrun⟩ := run_of_returns hclean
    obtain ⟨⟨⟩, hfree⟩ := run_of_returns (hreturns (finalState cleanup t))
    have hcount := hrelease (finalState cleanup t)
    rw [hfree] at hcount
    rw [finalState_bind_of_ok hrun, finalState_bind_of_ok hfree]
    show count (finalState release (finalState cleanup t)) = _
    rw [hcount, hcleanup t]
  · obtain ⟨e', u, hrun⟩ := run_of_not_returns (Bool.eq_false_iff.mpr hclean)
    rw [finalState_bind_of_error hrun]
    exact hcleanup.of_error hrun

theorem run_guarded : (guarded caught enter hold otherwise cleanup release rethrow).run s =
    handle caught (fun e => cleanup >>= fun _ => release >>= fun _ => throw (rethrow e))
      ((enter >>= fun locked => if locked then hold else pure otherwise).run s) := rfl

theorem run_guarded_of_ok {a : α}
    (h : (enter >>= fun locked => if locked then hold else pure otherwise).run s = .ok a t) :
    (guarded caught enter hold otherwise cleanup release rethrow).run s = .ok a t := by
  rw [run_guarded, h, handle]

theorem run_guarded_of_error
    (h : (enter >>= fun locked => if locked then hold else pure otherwise).run s = .error e t) :
    (guarded caught enter hold otherwise cleanup release rethrow).run s =
      if caught e = true then (cleanup >>= fun _ => release >>= fun _ =>
        (throw (rethrow e) : EStateM ε σ α)).run t
      else .error e t := by
  rw [run_guarded, h, handle]

/-- What was thrown with these counts leaves those that the handler leaves. -/
theorem count_guarded_of_error (hcleanup : Quiet count cleanup) (hrelease : Releases count release)
    (hreturns : ∀ u, returns release u = true)
    (h : (enter >>= fun locked => if locked then hold else pure otherwise).run s = .error e t) :
    count (finalState (guarded caught enter hold otherwise cleanup release rethrow) s) =
      if caught e = true ∧ returns cleanup t = true then ((count t).1, (count t).2 + 1)
      else count t := by
  by_cases hcaught : caught e = true
  · rw [finalState_congr ((run_guarded_of_error h).trans (if_pos hcaught)),
      count_handler hcleanup hrelease hreturns]
    simp only [hcaught, true_and]
  · rw [finalState_of_error ((run_guarded_of_error h).trans (if_neg hcaught)),
      if_neg fun hboth => hcaught hboth.1]

theorem covered_iff_of_error (hrun : enter.run s = .error e t) :
    Covered caught enter hold cleanup s ↔ ¬ (caught e = true ∧ returns cleanup t = true) := by
  constructor
  · rintro h ⟨hcaught, hclean⟩
    have hfails := h.entering e t hrun hcaught
    rw [hclean] at hfails
    cases hfails
  · intro hnot
    refine ⟨fun e' t' h' hcaught => ?_, fun t' e' u h' => ?_⟩
    · cases hrun.symm.trans h'
      exact Bool.eq_false_iff.mpr fun hclean => hnot ⟨hcaught, hclean⟩
    · cases hrun.symm.trans h'

theorem covered_iff_of_ok {locked : Bool} (hrun : enter.run s = .ok locked t) :
    Covered caught enter hold cleanup s ↔ ∀ e u, locked = true → hold.run t = .error e u →
      caught e = true ∧ returns cleanup u = true := by
  constructor
  · rintro h e u rfl hthrown
    exact h.holding t e u hrun hthrown
  · intro h
    refine ⟨fun e' t' h' => ?_, fun t' e' u h' => ?_⟩
    · cases hrun.symm.trans h'
    · cases hrun.symm.trans h'
      exact h e' u rfl

/-- The program is balanced exactly if the handler cleans up where the lock is held. -/
theorem balanced_guarded_iff (henter : Takes count enter) (hhold : Releases count hold)
    (hcleanup : Quiet count cleanup) (hrelease : Releases count release)
    (hreturns : ∀ u, returns release u = true) (s : σ) :
    Balanced count s (finalState (guarded caught enter hold otherwise cleanup release rethrow) s) ↔
      Covered caught enter hold cleanup s := by
  have htakes := henter s
  cases hrun : enter.run s with
  | error e t =>
    rw [hrun] at htakes
    rw [covered_iff_of_error hrun]
    refine balanced_iff_not_released ?_
    rw [count_guarded_of_error hcleanup hrelease hreturns (run_bind_of_error hrun), htakes]
  | ok locked t =>
    rw [hrun] at htakes
    rw [covered_iff_of_ok hrun]
    have hbody : (enter >>= fun locked => if locked then hold else pure otherwise).run s =
        (if locked then hold else pure otherwise : EStateM ε σ α).run t := run_bind_of_ok hrun
    cases locked with
    | false =>
      rw [finalState_of_ok (run_guarded_of_ok hbody)]
      refine iff_of_true (.inl htakes) fun e u hlocked => ?_
      cases hlocked
    | true =>
      have hheld := hhold t
      cases hend : hold.run t with
      | ok a u =>
        rw [hend] at hheld
        rw [finalState_of_ok (run_guarded_of_ok (hbody.trans hend))]
        refine iff_of_true (.inr ?_) fun e u' _ hthrown => ?_
        · rw [hheld, htakes]
        · cases hthrown
      | error e u =>
        rw [hend] at hheld
        have hcount : count (finalState
            (guarded caught enter hold otherwise cleanup release rethrow) s) =
            if caught e = true ∧ returns cleanup u = true
              then ((count s).1 + 1, (count s).2 + 1) else ((count s).1 + 1, (count s).2) := by
          rw [count_guarded_of_error hcleanup hrelease hreturns (hbody.trans hend), hheld, htakes]
        rw [balanced_iff_released hcount]
        constructor
        · rintro hreleased e' u' - hthrown
          cases hthrown
          exact hreleased
        · intro h
          exact h e u rfl rfl

end Guarded

end ManualLock

end SkaleConsensus.Library
