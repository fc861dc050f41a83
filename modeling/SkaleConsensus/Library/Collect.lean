import SkaleConsensus.Library.OrderedMap

/-! Collecting until there is enough.

The keys are tried one after the other and what is found is put into a map, until the map has
the size that is required. If exactly that many can be found, the map is all of them. -/
namespace SkaleConsensus.Library

theorem countP_le_countP {α : Type} {l l' : List α} {p q : α → Bool} (hnodup : l.Nodup)
    (h : ∀ a ∈ l, p a = true → a ∈ l' ∧ q a = true) : l.countP p ≤ l'.countP q := by
  rw [List.countP_eq_length_filter, List.countP_eq_length_filter]
  apply (List.subperm_of_subset (hnodup.filter p) _).length_le
  intro a ha
  obtain ⟨hmem, hp⟩ := List.mem_filter.mp ha
  exact List.mem_filter.mpr (h a hmem hp)

/-- A rearrangement of what a list is mapped to comes from a rearrangement of the list. -/
theorem exists_perm_of_perm_map {α β : Type} {f : α → β} {l : List β} {x : List α}
    (h : l.Perm (x.map f)) : ∃ x' : List α, x'.Perm x ∧ l = x'.map f := by
  have hmap : List.Forall₂ (fun b a => b = f a) (x.map f) x :=
    List.forall₂_map_left_iff.mpr (List.forall₂_same.mpr fun _ _ => rfl)
  obtain ⟨x', hx', hperm⟩ := List.perm_comp_forall₂ h hmap
  refine ⟨x', hperm, ?_⟩
  rw [← List.forall₂_eq_eq_eq, List.forall₂_map_right_iff]
  exact hx'

section Collect
variable {α : Type} {read : ℕ → Option α} {required : ℕ} {stored : List (ℕ × α)}

def collect (read : ℕ → Option α) (required : ℕ) : List ℕ → OrderedMap ℕ α → OrderedMap ℕ α
  | [], set => set
  | i :: rest, set =>
    let set := match read i with
      | some a => set.assign i a
      | none => set
    if set.size = required then set else collect read required rest set

/-- One key adds its entry. -/
theorem mem_collect_one (hnodup : (stored.map Prod.fst).Nodup)
    (hread : ∀ i, read i = stored.lookup i) {set : OrderedMap ℕ α} {start : ℕ}
    (hset : ∀ e, e ∈ set.entries ↔ e ∈ stored ∧ e.1 < start) (e : ℕ × α) :
    e ∈ (match read start with
      | some a => set.assign start a
      | none => set).entries ↔ e ∈ stored ∧ e.1 < start + 1 := by
  have hfound : e ∈ stored → e.1 = start → stored.lookup start = some e.2 := fun he heq =>
    (lookup_eq_some_iff_mem hnodup).mpr (heq ▸ he)
  rw [hread]
  cases hlookup : stored.lookup start with
  | none =>
    rw [hset e]
    refine and_congr_right fun he => ⟨Nat.lt_succ_of_lt, fun hlt => ?_⟩
    refine lt_of_le_of_ne (Nat.lt_succ_iff.mp hlt) fun heq => ?_
    exact absurd (hfound he heq) (by simp [hlookup])
  | some a =>
    have hmem := (lookup_eq_some_iff_mem hnodup).mp hlookup
    have hfresh : start ∉ set.entries.map Prod.fst := fun hstart => by
      obtain ⟨e', he', heq⟩ := List.mem_map.mp hstart
      exact absurd heq (Nat.ne_of_lt ((hset e').mp he').2)
    rw [(OrderedMap.assign_perm hfresh _).mem_iff, List.mem_cons, hset e]
    constructor
    · rintro (rfl | ⟨he, hlt⟩)
      · exact ⟨hmem, Nat.lt_succ_self _⟩
      · exact ⟨he, Nat.lt_succ_of_lt hlt⟩
    · rintro ⟨he, hlt⟩
      by_cases heq : e.1 = start
      · exact .inl (Prod.ext heq (Option.some.inj (hlookup.symm.trans (hfound he heq))).symm)
      · exact .inr ⟨he, lt_of_le_of_ne (Nat.lt_succ_iff.mp hlt) heq⟩

/-- The loop ends when nothing is left or nothing is missing. -/
theorem collect_range'_perm (hnodup : (stored.map Prod.fst).Nodup)
    (hread : ∀ i, read i = stored.lookup i) (hlength : stored.length = required) (start count : ℕ)
    (set : OrderedMap ℕ α) (hset : ∀ e, e ∈ set.entries ↔ e ∈ stored ∧ e.1 < start)
    (hrest : ∀ e ∈ stored, e.1 < start + count) :
    (collect read required (List.range' start count) set).entries.Perm stored := by
  induction count generalizing start set with
  | zero =>
    refine (List.perm_ext_iff_of_nodup set.nodup_entries (hnodup.of_map _)).mpr fun e => ?_
    exact (hset e).trans (and_iff_left_of_imp (hrest e))
  | succ count ih =>
    have hnew := mem_collect_one hnodup hread hset
    rw [List.range'_succ, collect]
    generalize (match read start with
      | some a => set.assign start a
      | none => set) = set' at hnew
    split_ifs with hsize
    · have hsubset : set'.entries ⊆ stored := fun e he => ((hnew e).mp he).1
      refine (List.subperm_of_subset set'.nodup_entries hsubset).perm_of_length_le ?_
      rw [hlength, ← hsize]
      exact le_rfl
    · exact ih (start + 1) set' hnew fun e he =>
        (hrest e he).trans_eq (Nat.succ_add_eq_add_succ ..).symm

/-- Keys from one to `total`, of which as many are stored as are required. -/
theorem collect_perm {total : ℕ} (hnodup : (stored.map Prod.fst).Nodup)
    (hread : ∀ i, read i = stored.lookup i) (hlength : stored.length = required)
    (hrange : ∀ e ∈ stored, 1 ≤ e.1 ∧ e.1 ≤ total) :
    (collect read required (List.range' 1 total) .empty).entries.Perm stored := by
  refine collect_range'_perm hnodup hread hlength 1 total .empty (fun e => ?_) fun e he => ?_
  · refine ⟨fun he => (List.not_mem_nil he).elim, fun he => ?_⟩
    exact absurd (hrange e he.1).1 (Nat.not_le_of_lt he.2)
  · rw [Nat.add_comm]
    exact Nat.lt_succ_of_le (hrange e he).2

end Collect

end SkaleConsensus.Library
