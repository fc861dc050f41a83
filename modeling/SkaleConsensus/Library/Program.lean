import Mathlib.Logic.Relation
import Mathlib.Tactic.SplitIfs

/-! Programs that throw and keep what they wrote.

The modelled handlers mutate their object and may throw in the middle; what was
written before the throw stays written. `EStateM` is exactly that: an exception
carries the state it was thrown in. What matters of a handler is then its
`finalState`, returned or thrown, and the lemmas here push `finalState` through a
program one instruction at a time. -/
namespace SkaleConsensus.Library

/-- The state a program leaves, returned or thrown. -/
def finalState {ε σ α : Type} (x : EStateM ε σ α) (s : σ) : σ :=
  match x.run s with
  | .ok _ s' => s'
  | .error _ s' => s'

/-- What a program returns, if it does not throw. -/
def result? {ε σ α : Type} (x : EStateM ε σ α) (s : σ) : Option α :=
  match x.run s with
  | .ok a _ => some a
  | .error _ _ => none

/-- What a program throws, if it does. -/
def thrown? {ε σ α : Type} (x : EStateM ε σ α) (s : σ) : Option ε :=
  match x.run s with
  | .ok _ _ => none
  | .error e _ => some e

/-- `try` with a `catch` for everything: whether a program returned. -/
def returned {ε ε' σ α : Type} (x : EStateM ε σ α) : EStateM ε' σ Bool := fun s =>
  match x.run s with
  | .ok _ s' => .ok true s'
  | .error _ s' => .ok false s'

def returns {ε σ α : Type} (x : EStateM ε σ α) (s : σ) : Bool := (result? x s).isSome

variable {ε σ α β ε' : Type} {x : EStateM ε σ α} {f : α → EStateM ε σ β} {s s' : σ} {a : α}
  {y : Except ε α} {g : α → Except ε β} {e : ε} {b : β} {c : Prop}

theorem finalState_of_ok (h : x.run s = .ok a s') : finalState x s = s' := by
  unfold finalState
  rw [h]

theorem finalState_of_error (h : x.run s = .error e s') : finalState x s = s' := by
  unfold finalState
  rw [h]

theorem run_of_result? (h : result? x s = some a) : x.run s = .ok a (finalState x s) := by
  unfold result? at h
  unfold finalState
  cases hrun : x.run s with
  | ok b t =>
    rw [hrun] at h
    rw [Option.some.inj h]
  | error e t =>
    rw [hrun] at h
    cases h

theorem run_of_thrown? (h : thrown? x s = some e) :
    x.run s = .error e (finalState x s) := by
  unfold thrown? at h
  unfold finalState
  cases hrun : x.run s with
  | ok b t =>
    rw [hrun] at h
    cases h
  | error e' t =>
    rw [hrun] at h
    rw [Option.some.inj h]

/-- A result that can be computed, with what can be computed of it. -/
theorem exists_result {P : α → Prop} [DecidablePred P]
    (h : (result? x s).map (fun a => decide (P a)) = some true) :
    ∃ a, result? x s = some a ∧ P a := by
  obtain ⟨a, ha, hP⟩ := Option.map_eq_some_iff.mp h
  exact ⟨a, ha, of_decide_eq_true hP⟩

theorem run_of_returns (h : returns x s = true) : ∃ a, x.run s = .ok a (finalState x s) := by
  obtain ⟨a, ha⟩ := Option.isSome_iff_exists.mp h
  exact ⟨a, run_of_result? ha⟩

theorem run_of_not_returns (h : returns x s = false) : ∃ e s', x.run s = .error e s' := by
  unfold returns result? at h
  cases hrun : x.run s with
  | ok a s' =>
    rw [hrun] at h
    cases h
  | error e s' => exact ⟨e, s', rfl⟩

/-- Only the run counts. -/
theorem finalState_congr {y : EStateM ε σ α} (h : x.run s = y.run s') :
    finalState x s = finalState y s' := by
  unfold finalState
  rw [h]

/-- A program returns when each instruction does. -/
theorem run_bind_eq_ok {t : σ} :
    (x >>= f).run s = .ok b t ↔ ∃ a s', x.run s = .ok a s' ∧ (f a).run s' = .ok b t := by
  rw [EStateM.run_bind]
  cases hrun : x.run s with
  | ok a s' =>
    constructor
    · exact fun h => ⟨a, s', rfl, h⟩
    · rintro ⟨_, _, heq, h⟩
      cases heq
      exact h
  | error e s' =>
    constructor
    · rintro ⟨⟩
    · rintro ⟨_, _, ⟨⟩, _⟩

theorem run_bind_of_ok (h : x.run s = .ok a s') : (x >>= f).run s = (f a).run s' := by
  rw [EStateM.run_bind, h]

theorem run_bind_of_error (h : x.run s = .error e s') : (x >>= f).run s = .error e s' := by
  show EStateM.bind x f s = _
  unfold EStateM.bind
  rw [show x s = .error e s' from h]

/-- What is read is the state. -/
theorem run_get_bind {g : σ → EStateM ε σ β} : (get >>= g).run s = (g s).run s := rfl

theorem finalState_get_bind {g : σ → EStateM ε σ β} :
    finalState (get >>= g) s = finalState (g s) s := rfl

theorem run_ofExcept_eq_ok :
    (MonadExcept.ofExcept y : EStateM ε σ α).run s = .ok a s' ↔ y = .ok a ∧ s = s' := by
  cases y with
  | ok b =>
    show EStateM.Result.ok b s = .ok a s' ↔ _
    simp only [EStateM.Result.ok.injEq, Except.ok.injEq]
  | error e => exact ⟨nofun, nofun⟩

theorem run_adaptExcept_eq_ok {g : ε → ε'} :
    (x.adaptExcept g).run s = .ok a s' ↔ x.run s = .ok a s' := by
  unfold EStateM.adaptExcept EStateM.run
  dsimp only
  cases x s <;> simp

theorem finalState_adaptExcept {g : ε → ε'} :
    finalState (x.adaptExcept g) s = finalState x s := by
  unfold finalState EStateM.adaptExcept EStateM.run
  dsimp only
  cases x s <;> rfl

/-- `run_bind_eq_ok` without a state. -/
theorem bind_eq_ok :
    (y >>= g) = .ok b ↔ ∃ a, y = .ok a ∧ g a = .ok b := by
  cases y with
  | ok a =>
    constructor
    · exact fun h => ⟨a, rfl, h⟩
    · rintro ⟨_, heq, h⟩
      cases heq
      exact h
  | error e =>
    constructor
    · rintro ⟨⟩
    · rintro ⟨_, ⟨⟩, _⟩

theorem bind_of_ok {a : α} (h : y = .ok a) : (y >>= g) = g a := by
  rw [h]
  rfl

/-- What comes after a program that returned. -/
theorem after_bind (h : (y >>= g) = .ok b) : ∃ a, g a = .ok b :=
  (bind_eq_ok.mp h).imp fun _ => And.right

/-- What comes after a check. -/
theorem after_check {y : Except ε Unit} {k : Unit → Except ε α} (h : (y >>= k) = .ok a) :
    k () = .ok a := by
  obtain ⟨⟨⟩, hrest⟩ := after_bind h
  exact hrest

/-- A program that goes on in the same way after either of two. -/
theorem ite_bind_eq_ok [Decidable c] {x : Except ε α} :
    (if c then x >>= g else y >>= g) = .ok b ↔
      ∃ a, (if c then x else y) = .ok a ∧ g a = .ok b := by
  split_ifs <;> exact bind_eq_ok

/-- Two checks that are made on a condition, and the rest. -/
theorem checks_bind_eq_ok [Decidable c] {y y' : Except ε Unit} {k : Unit → Except ε α} :
    (if c then y >>= fun _ => y' >>= k else k ()) = .ok a ↔
      (c → y = .ok () ∧ y' = .ok ()) ∧ k () = .ok a := by
  split_ifs with hc
  · rw [bind_eq_ok]
    constructor
    · rintro ⟨⟨⟩, hy, h⟩
      obtain ⟨⟨⟩, hy', hk⟩ := bind_eq_ok.mp h
      exact ⟨fun _ => ⟨hy, hy'⟩, hk⟩
    · rintro ⟨hy, hk⟩
      exact ⟨(), (hy hc).1, bind_eq_ok.mpr ⟨(), (hy hc).2, hk⟩⟩
  · exact ⟨fun h => ⟨fun hc' => absurd hc' hc, h⟩, And.right⟩

theorem mapError_eq_ok {g : ε → ε'} :
    y.mapError g = .ok a ↔ y = .ok a := by
  cases y with
  | ok b => exact ⟨fun h => by cases h; rfl, fun h => by cases h; rfl⟩
  | error e => exact ⟨nofun, nofun⟩

/-- `exists_result` without a state. -/
theorem exists_ok {P : α → Prop} [DecidablePred P]
    (h : y.toOption.map (fun a => decide (P a)) = some true) : ∃ a, y = .ok a ∧ P a := by
  cases y with
  | ok a => exact ⟨a, rfl, of_decide_eq_true (Option.some.inj h)⟩
  | error e => cases h

/-- A list is mapped entry by entry. -/
theorem mapM_eq_ok {l : List α} {l' : List β} (h : l.mapM g = .ok l') :
    l'.length = l.length ∧ ∀ b ∈ l', ∃ a ∈ l, g a = .ok b := by
  induction l generalizing l' with
  | nil =>
    cases h
    exact ⟨rfl, fun b hb => absurd hb List.not_mem_nil⟩
  | cons a rest ih =>
    rw [List.mapM_cons] at h
    obtain ⟨b, hb, hrest⟩ := bind_eq_ok.mp h
    obtain ⟨l'', hl, hcons⟩ := bind_eq_ok.mp hrest
    cases hcons
    obtain ⟨hlength, hmem⟩ := ih hl
    refine ⟨congrArg (· + 1) hlength, fun b' hb' => ?_⟩
    rcases List.mem_cons.mp hb' with rfl | hb'
    · exact ⟨a, List.mem_cons_self, hb⟩
    · obtain ⟨a', ha', heq⟩ := hmem b' hb'
      exact ⟨a', List.mem_cons_of_mem a ha', heq⟩

/-- After an instruction that returned, the rest of the program. -/
theorem finalState_bind_of_ok (h : x.run s = .ok a s') :
    finalState (x >>= f) s = finalState (f a) s' := by
  unfold finalState
  rw [EStateM.run_bind, h]

/-- After an instruction that threw, nothing. -/
theorem finalState_bind_of_error (h : x.run s = .error e s') :
    finalState (x >>= f) s = s' := by
  unfold finalState
  rw [EStateM.run_bind, h]

/-- What is returned does not matter. -/
theorem finalState_bind_pure : finalState (x >>= fun _ => pure b) s = finalState x s := by
  cases hrun : x.run s with
  | ok a s' =>
    rw [finalState_bind_of_ok hrun, finalState_of_ok hrun]
    rfl
  | error e s' => rw [finalState_bind_of_error hrun, finalState_of_error hrun]

/-- A relation that covers an instruction and what follows it covers both. -/
theorem finalState_bind_rel {R : σ → σ → Prop} (htrans : ∀ {a b c}, R a b → R b c → R a c)
    (hx : R s (finalState x s)) (hf : ∀ a s', x.run s = .ok a s' → R s' (finalState (f a) s')) :
    R s (finalState (x >>= f) s) := by
  cases hrun : x.run s with
  | ok a s' =>
    rw [finalState_bind_of_ok hrun]
    rw [finalState_of_ok hrun] at hx
    exact htrans hx (hf a s' hrun)
  | error e s' =>
    rw [finalState_bind_of_error hrun]
    rw [finalState_of_error hrun] at hx
    exact hx

/-! ### What a program does not look at -/

section Frame
variable {ε' : Type} {g : σ → σ}

def mapState (g : σ → σ) : EStateM.Result ε σ α → EStateM.Result ε σ α
  | .ok a s => .ok a (g s)
  | .error e s => .error e (g s)

/-- What `g` changes the program neither looks at nor writes. -/
def Frames (g : σ → σ) (x : EStateM ε σ α) : Prop := ∀ s, x.run (g s) = mapState g (x.run s)

theorem frames_pure (a : α) : Frames g (pure a : EStateM ε σ α) := fun _ => rfl

theorem frames_throw (e : ε) : Frames g (throw e : EStateM ε σ α) := fun _ => rfl

theorem frames_modify {m : σ → σ} (h : ∀ s, m (g s) = g (m s)) :
    Frames g (modify m : EStateM ε σ Unit) := by
  intro s
  show EStateM.Result.ok () (m (g s)) = .ok () (g (m s))
  rw [h]

theorem Frames.bind (hx : Frames g x) (hf : ∀ a, Frames g (f a)) : Frames g (x >>= f) := by
  intro s
  rw [EStateM.run_bind, EStateM.run_bind, hx s]
  cases x.run s with
  | ok a s' => exact hf a s'
  | error e s' => rfl

/-- What is read is used up to what `g` changes. -/
theorem frames_get_bind {k : σ → EStateM ε σ β} (hk : ∀ s, k (g s) = k s)
    (h : ∀ s, Frames g (k s)) : Frames g (get >>= k) := by
  intro s
  rw [run_get_bind, run_get_bind, hk]
  exact h s s

theorem Frames.adaptExcept (hx : Frames g x) (m : ε → ε') : Frames g (x.adaptExcept m) := by
  intro s
  have hrun := hx s
  unfold EStateM.run at hrun
  unfold EStateM.adaptExcept EStateM.run
  dsimp only
  rw [hrun]
  cases x s <;> rfl

theorem Frames.returned (hx : Frames g x) : Frames g (returned x : EStateM ε' σ Bool) := by
  intro s
  show Library.returned x (g s) = mapState g (Library.returned x s)
  unfold Library.returned
  rw [hx s]
  cases x.run s <;> rfl

theorem finalState_of_mapState (h : x.run s' = mapState g (x.run s)) :
    finalState x s' = g (finalState x s) := by
  unfold finalState
  rw [h]
  cases x.run s <;> rfl

theorem result?_of_mapState (h : x.run s' = mapState g (x.run s)) : result? x s' = result? x s := by
  unfold result?
  rw [h]
  cases x.run s <;> rfl

end Frame

/-! ### What a program does not throw -/

section Avoids
variable {e : ε}

/-- The program throws other things than `e`, if it throws. -/
def Avoids (e : ε) (x : EStateM ε σ α) : Prop := ∀ s s', x.run s ≠ .error e s'

theorem avoids_pure (a : α) : Avoids e (pure a : EStateM ε σ α) := fun _ _ => nofun

theorem avoids_modify (m : σ → σ) : Avoids e (modify m : EStateM ε σ Unit) := fun _ _ => nofun

theorem avoids_throw {e' : ε} (h : e' ≠ e) : Avoids e (throw e' : EStateM ε σ α) := by
  intro s s' hrun
  cases hrun
  exact h rfl

theorem Avoids.bind (hx : Avoids e x) (hf : ∀ a, Avoids e (f a)) : Avoids e (x >>= f) := by
  intro s s' hrun
  rw [EStateM.run_bind] at hrun
  cases hx' : x.run s with
  | ok a t =>
    rw [hx'] at hrun
    exact hf a t s' hrun
  | error e' t =>
    rw [hx'] at hrun
    cases hrun
    exact hx s s' hx'

theorem avoids_get_bind {k : σ → EStateM ε σ β} (h : ∀ s, Avoids e (k s)) :
    Avoids e (get >>= k) :=
  fun s s' => h s s s'

theorem Avoids.ite {p : Prop} [Decidable p] {y : EStateM ε σ α} (hx : Avoids e x)
    (hy : Avoids e y) : Avoids e (if p then x else y) := by
  split_ifs
  · exact hx
  · exact hy

end Avoids

end SkaleConsensus.Library
