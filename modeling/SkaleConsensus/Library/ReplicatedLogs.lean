import Mathlib.Data.List.Infix

/-! Logs of several replicas.

Every replica appends to a log of its own. If the entry after a common beginning is the same
wherever there is one, then of two logs one is the beginning of the other. The entry may depend
on what all replicas have up to there, not only the two that are compared. -/
namespace SkaleConsensus.Library

variable {ι α : Type} {logs : ι → List α}

/-- The logs with at least `m` entries have the same first ones. -/
def AgreeUpTo (logs : ι → List α) (m : ℕ) : Prop :=
  ∀ i j, m ≤ (logs i).length → m ≤ (logs j).length → (logs i).take m = (logs j).take m

theorem agreeUpTo_of_next {n : ℕ} (hnext : ∀ m < n, AgreeUpTo logs m →
      ∀ i j x y, (logs i)[m]? = some x → (logs j)[m]? = some y → x = y) {m : ℕ} (hm : m ≤ n) :
    AgreeUpTo logs m := by
  induction m with
  | zero => exact fun i j _ _ => by rw [List.take_zero, List.take_zero]
  | succ m ih =>
    intro i j hi hj
    have hbefore := ih (Nat.le_of_succ_le hm)
    have hx := List.getElem?_eq_getElem (Nat.lt_of_succ_le hi)
    have hy := List.getElem?_eq_getElem (Nat.lt_of_succ_le hj)
    rw [List.take_add_one, List.take_add_one, hx, hy, hnext m hm hbefore i j _ _ hx hy,
      hbefore i j (Nat.le_of_succ_le hi) (Nat.le_of_succ_le hj)]

theorem prefix_or_prefix_of_agreeUpTo {i : ι} (h : ∀ m ≤ (logs i).length, AgreeUpTo logs m)
    (j : ι) : logs i <+: logs j ∨ logs j <+: logs i := by
  rcases Nat.le_total (logs i).length (logs j).length with hle | hle
  · refine .inl (List.prefix_iff_eq_take.mpr ?_)
    rw [← h _ le_rfl i j le_rfl hle, List.take_length]
  · refine .inr (List.prefix_iff_eq_take.mpr ?_)
    rw [← h _ hle j i le_rfl hle, List.take_length]

end SkaleConsensus.Library
