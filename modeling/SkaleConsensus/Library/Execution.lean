import Mathlib.Logic.Relation

/-! Systems that step.

A system is an initial state and a partial step function on events: `none` means
the event is not enabled. A run is a list of events taken in order; a property
that holds initially and survives every enabled event holds after every run. -/
namespace SkaleConsensus.Library

/-- An initial state and a step that may refuse an event. -/
structure Machine (σ ε : Type) where
  initial : σ
  step : ε → σ → Option σ

namespace Machine
variable {σ ε : Type}

/-- The state after a list of events, if each was enabled in its turn. -/
def runFrom (M : Machine σ ε) (s : σ) : List ε → Option σ
  | [] => some s
  | e :: rest => (M.step e s).bind fun s' => M.runFrom s' rest

def run (M : Machine σ ε) (events : List ε) : Option σ := M.runFrom M.initial events

/-- Reached by some run. -/
def Reachable (M : Machine σ ε) (s : σ) : Prop := ∃ events, M.run events = some s

variable {M : Machine σ ε} {P : σ → Prop} {events : List ε} {C : ε → σ → Prop} {s : σ}

/-- A run that can be computed, with what can be computed of its end. -/
theorem exists_runFrom [DecidablePred P]
    (h : (M.runFrom s events).map (fun s' => decide (P s')) = some true) :
    ∃ s', M.runFrom s events = some s' ∧ P s' := by
  obtain ⟨s', hrun, hP⟩ := Option.map_eq_some_iff.mp h
  exact ⟨s', hrun, of_decide_eq_true hP⟩

theorem exists_run [DecidablePred P] (h : (M.run events).map (fun s => decide (P s)) = some true) :
    ∃ s, M.run events = some s ∧ P s :=
  exists_runFrom h

theorem runFrom_append (s : σ) (a b : List ε) :
    M.runFrom s (a ++ b) = (M.runFrom s a).bind fun s' => M.runFrom s' b := by
  induction a generalizing s with
  | nil => rfl
  | cons e rest ih =>
    simp only [List.cons_append, runFrom]
    cases M.step e s with
    | none => rfl
    | some s' => exact ih s'

/-- A system that refuses no event takes every list of them. -/
theorem exists_runFrom_of_total (h : ∀ e s, ∃ s', M.step e s = some s') (s : σ) (events : List ε) :
    ∃ s', M.runFrom s events = some s' := by
  induction events generalizing s with
  | nil => exact ⟨s, rfl⟩
  | cons e rest ih =>
    obtain ⟨mid, hmid⟩ := h e s
    obtain ⟨s', hs'⟩ := ih mid
    exact ⟨s', by rw [runFrom, hmid, Option.bind_some, hs']⟩

/-- What one event preserves, a run preserves. -/
theorem runFrom_invariant (hstep : ∀ e s s', P s → M.step e s = some s' → P s') (events : List ε)
    (s s' : σ) (hs : P s) (h : M.runFrom s events = some s') : P s' := by
  induction events generalizing s with
  | nil =>
    simp only [runFrom, Option.some.injEq] at h
    exact h ▸ hs
  | cons e rest ih =>
    simp only [runFrom, Option.bind_eq_some_iff] at h
    obtain ⟨mid, hmid, hrest⟩ := h
    exact ih mid (hstep e s mid hs hmid) hrest

/-- The invariant rule. -/
theorem Reachable.invariant {P : σ → Prop} (hinit : P M.initial)
    (hstep : ∀ e s s', P s → M.step e s = some s' → P s') {s : σ} (h : M.Reachable s) : P s := by
  obtain ⟨events, hrun⟩ := h
  exact runFrom_invariant hstep events M.initial s hinit hrun

/-- Each event of a run meets a condition on it and the state it happens in. -/
def Keeps (M : Machine σ ε) (C : ε → σ → Prop) (s : σ) : List ε → Prop
  | [] => True
  | e :: rest => C e s ∧ match M.step e s with
    | none => True
    | some s' => M.Keeps C s' rest

instance decidableKeeps (M : Machine σ ε) (C : ε → σ → Prop) [∀ e s, Decidable (C e s)] :
    ∀ (s : σ) (events : List ε), Decidable (M.Keeps C s events)
  | _, [] => inferInstanceAs (Decidable True)
  | s, e :: rest =>
    have : Decidable (match M.step e s with
        | none => True
        | some s' => M.Keeps C s' rest) :=
      match M.step e s with
      | none => inferInstanceAs (Decidable True)
      | some s' => decidableKeeps M C s' rest
    inferInstanceAs (Decidable (_ ∧ _))

theorem keeps_of_forall (h : ∀ e ∈ events, ∀ s, C e s) (s : σ) :
    M.Keeps C s events := by
  induction events generalizing s with
  | nil => trivial
  | cons e rest ih =>
    refine ⟨h e List.mem_cons_self s, ?_⟩
    cases M.step e s with
    | none => trivial
    | some s' => exact ih (fun e' he' => h e' (List.mem_cons_of_mem e he')) s'

/-- What holds of each event after the events before it. -/
theorem keeps_of_runs
    (h : ∀ before e rest s', events = before ++ e :: rest → M.runFrom s before = some s' → C e s') :
    M.Keeps C s events := by
  induction events generalizing s with
  | nil => trivial
  | cons e rest ih =>
    refine ⟨h [] e rest s rfl rfl, ?_⟩
    cases hstep : M.step e s with
    | none => trivial
    | some mid =>
      refine ih fun before e' rest' s' hsplit hrun => ?_
      refine h (e :: before) e' rest' s' (congrArg _ hsplit) ?_
      rw [runFrom, hstep, Option.bind_some, hrun]

theorem runFrom_invariant_of_keeps (hstep : ∀ e s s', P s → C e s → M.step e s = some s' → P s')
    (events : List ε) (s s' : σ) (hs : P s) (hc : M.Keeps C s events)
    (h : M.runFrom s events = some s') : P s' := by
  induction events generalizing s with
  | nil =>
    simp only [runFrom, Option.some.injEq] at h
    exact h ▸ hs
  | cons e rest ih =>
    simp only [runFrom, Option.bind_eq_some_iff] at h
    obtain ⟨mid, hmid, hrest⟩ := h
    obtain ⟨hce, hcrest⟩ := hc
    rw [hmid] at hcrest
    exact ih mid (hstep e s mid hs hce hmid) hcrest hrest

theorem run_invariant_of_keeps (hrun : M.run events = some s) (hc : M.Keeps C M.initial events)
    (hinit : P M.initial) (hstep : ∀ e s s', P s → C e s → M.step e s = some s' → P s') : P s :=
  runFrom_invariant_of_keeps hstep events M.initial s hinit hc hrun

/-- A property holds in every state of a run. -/
def Always (M : Machine σ ε) (P : σ → Prop) (s : σ) : List ε → Prop
  | [] => P s
  | e :: rest => P s ∧ match M.step e s with
    | none => True
    | some s' => M.Always P s' rest

theorem Always.head (h : M.Always P s events) : P s := by
  cases events with
  | nil => exact h
  | cons e rest => exact h.1

/-- What an event preserves exactly if it meets a condition holds throughout exactly the runs that
keep to the condition. -/
theorem always_iff_keeps {I : σ → Prop}
    (hstep : ∀ e s s', I s → P s → M.step e s = some s' → I s' ∧ (P s' ↔ C e s)) {s' : σ} (hI : I s)
    (hP : P s) (hrun : M.runFrom s events = some s') :
    M.Always P s events ↔ M.Keeps C s events := by
  induction events generalizing s with
  | nil => exact iff_of_true hP trivial
  | cons e rest ih =>
    simp only [runFrom, Option.bind_eq_some_iff] at hrun
    obtain ⟨mid, hmid, hrest⟩ := hrun
    obtain ⟨hImid, hiff⟩ := hstep e s mid hI hP hmid
    simp only [Always, Keeps, hmid]
    by_cases hC : C e s
    · simp only [hP, hC, true_and]
      exact ih hImid (hiff.mpr hC) hrest
    · exact iff_of_false (fun h => hC (hiff.mp h.2.head)) fun h => hC h.1

end Machine

end SkaleConsensus.Library
