import Mathlib.Algebra.Order.BigOperators.Group.Finset

/-! Counting voters.

Every safety argument about voting rests on two facts about finite sets: a set
with more members than there are faulty nodes has a correct one
(`exists_correct`), and two sets that together overfill the node set share one
(`exists_common`). Thresholds are kept in the form a program compares them,
`n < 3 * count` and `2 * n < 3 * count`, so that no division appears. -/
namespace SkaleConsensus.Library.Quorum

variable {ι : Type*} {nodes faulty a b : Finset ι}

theorem exists_correct (h : faulty.card < a.card) : ∃ i ∈ a, i ∉ faulty :=
  Finset.exists_mem_notMem_of_card_lt_card h

/-- A third of the nodes, exceeded, contains a correct node. -/
theorem exists_correct_of_third {n : ℕ} (hf : 3 * faulty.card < n) (ha : n < 3 * a.card) :
    ∃ i ∈ a, i ∉ faulty :=
  exists_correct (by omega)

/-- Two sets of nodes whose sizes add up to more than all nodes and the faulty ones
share a correct node. -/
theorem exists_common [DecidableEq ι] (ha : a ⊆ nodes) (hb : b ⊆ nodes)
    (h : nodes.card + faulty.card < a.card + b.card) : ∃ i ∈ a, i ∈ b ∧ i ∉ faulty := by
  have hunion : (a ∪ b).card ≤ nodes.card := Finset.card_le_card (Finset.union_subset ha hb)
  have hcount := Finset.card_union_add_card_inter a b
  have hmany : faulty.card < (a ∩ b).card := by omega
  obtain ⟨i, hi, hcorrect⟩ := exists_correct hmany
  obtain ⟨hia, hib⟩ := Finset.mem_inter.mp hi
  exact ⟨i, hia, hib, hcorrect⟩

/-- Two two-thirds quorums share a correct node. -/
theorem exists_common_of_two_thirds [DecidableEq ι] (ha : a ⊆ nodes) (hb : b ⊆ nodes)
    (hf : 3 * faulty.card < nodes.card) (hqa : 2 * nodes.card < 3 * a.card)
    (hqb : 2 * nodes.card < 3 * b.card) : ∃ i ∈ a, i ∈ b ∧ i ∉ faulty :=
  exists_common ha hb (by omega)

end SkaleConsensus.Library.Quorum
