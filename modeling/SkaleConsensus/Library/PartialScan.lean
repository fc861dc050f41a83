import Mathlib.Data.List.Basic

/-! Scans that stop at the first unknown answer.

A list is searched for the first entry whose answer is yes, while answers are still
coming in. The scan gives up at the first entry without an answer. So what it finds
does not depend on the answers it has not seen, and with every answer it finds what
there is. -/
namespace SkaleConsensus.Library

variable {α : Type} {known : α → Option Bool} {answer : α → Bool} {l : List α} {x : α}

/-- The first yes, if every answer before it is known to be no. -/
def scan? (known : α → Option Bool) : List α → Option α
  | [] => none
  | x :: rest =>
    match known x with
    | some true => some x
    | some false => scan? known rest
    | none => none

theorem find?_of_scan? (hknown : ∀ x b, known x = some b → answer x = b)
    (h : scan? known l = some x) : l.find? answer = some x := by
  induction l with
  | nil => cases h
  | cons y rest ih =>
    unfold scan? at h
    cases hy : known y with
    | none =>
      rw [hy] at h
      cases h
    | some b =>
      rw [hy] at h
      have hanswer := hknown y b hy
      cases b with
      | true =>
        cases h
        exact List.find?_cons_of_pos hanswer
      | false =>
        rw [List.find?_cons_of_neg (by simp [hanswer])]
        exact ih h

theorem scan?_eq_find? (hknown : ∀ x ∈ l, known x = some (answer x)) :
    scan? known l = l.find? answer := by
  induction l with
  | nil => rfl
  | cons y rest ih =>
    have hrest := ih fun x hx => hknown x (List.mem_cons_of_mem y hx)
    unfold scan?
    rw [hknown y List.mem_cons_self]
    cases hanswer : answer y with
    | true => exact (List.find?_cons_of_pos hanswer).symm
    | false =>
      rw [List.find?_cons_of_neg (by simp [hanswer])]
      exact hrest

end SkaleConsensus.Library
