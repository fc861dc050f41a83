import Mathlib.Data.List.Basic

/-! The most recent entries that fit.

A history grows at its end; what is kept of it is a suffix, shortened from the front until it
fits. If a list that fits still fits without its last entry, nothing is lost by shortening after
every entry: what is kept is the longest suffix of the whole history that fits
(`recent_append_recent`, `suffix_recent_of_fits`). What is offered enters the history unless it is
among what is kept at that time (`history`). -/
namespace SkaleConsensus.Library

variable {α : Type} (fits : List α → Bool)

/-- The longest suffix that fits; nothing, if none does. -/
def recent : List α → List α
  | [] => []
  | a :: rest => if fits (a :: rest) then a :: rest else recent rest

/-- The history that grows from what is offered. -/
def history (same : α → α → Bool) (offered : List α) : List α :=
  offered.foldl (fun added a => if (recent fits added).any (same a) then added else added ++ [a]) []

variable {fits}

theorem history_concat (same : α → α → Bool) (offered : List α) (a : α) :
    history fits same (offered ++ [a]) =
      if (recent fits (history fits same offered)).any (same a) then history fits same offered
      else history fits same offered ++ [a] := by
  unfold history
  rw [List.foldl_concat]

theorem recent_of_fits {l : List α} (h : fits l = true) : recent fits l = l := by
  cases l with
  | nil => rfl
  | cons a rest => exact if_pos h

theorem recent_of_not_fits {a : α} {rest : List α} (h : ¬ fits (a :: rest) = true) :
    recent fits (a :: rest) = recent fits rest :=
  if_neg h

theorem recent_suffix (l : List α) : recent fits l <:+ l := by
  induction l with
  | nil => exact List.suffix_rfl
  | cons a rest ih =>
    by_cases h : fits (a :: rest) = true
    · simp only [recent_of_fits h, List.suffix_rfl]
    · rw [recent_of_not_fits h]
      exact ih.trans (List.suffix_cons a rest)

theorem fits_recent (hnil : fits [] = true) (l : List α) : fits (recent fits l) = true := by
  induction l with
  | nil => exact hnil
  | cons a rest ih =>
    by_cases h : fits (a :: rest) = true
    · rw [recent_of_fits h]
      exact h
    · rw [recent_of_not_fits h]
      exact ih

theorem suffix_recent_of_fits {l l' : List α} (hsuffix : l' <:+ l) (h : fits l' = true) :
    l' <:+ recent fits l := by
  induction l with
  | nil => exact hsuffix
  | cons a rest ih =>
    by_cases hall : fits (a :: rest) = true
    · rw [recent_of_fits hall]
      exact hsuffix
    · rw [recent_of_not_fits hall]
      rcases List.suffix_cons_iff.mp hsuffix with rfl | hrest
      · exact absurd h hall
      · exact ih hrest

theorem recent_append_recent (hinit : ∀ l b, fits (l ++ [b]) = true → fits l = true) (l : List α)
    (b : α) : recent fits (recent fits l ++ [b]) = recent fits (l ++ [b]) := by
  induction l with
  | nil => rfl
  | cons a rest ih =>
    by_cases h : fits (a :: rest) = true
    · rw [recent_of_fits h]
    · have hmore : ¬ fits (a :: (rest ++ [b])) = true := fun hb => h (hinit (a :: rest) b hb)
      rw [recent_of_not_fits h, List.cons_append, recent_of_not_fits hmore, ih]

end SkaleConsensus.Library
