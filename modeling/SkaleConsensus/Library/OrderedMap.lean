import Mathlib.Data.Finset.Card

/-! Maps ordered by key.

The entries of an `OrderedMap` are a list with strictly increasing keys, the
order an iterator visits them in. The order is a field, so a map with two entries
for one key cannot be built. `emplace` keeps the entry that is there; `assign`
replaces it. -/
namespace SkaleConsensus.Library

/-- In a list without two entries for one key, the entry of a key is the one that is found. -/
theorem lookup_eq_some_iff_mem {κ α : Type} [DecidableEq κ] {l : List (κ × α)}
    (hnodup : (l.map Prod.fst).Nodup) {k : κ} {a : α} : l.lookup k = some a ↔ (k, a) ∈ l := by
  induction l with
  | nil => simp
  | cons head rest ih =>
    obtain ⟨k', a'⟩ := head
    obtain ⟨hhead, hrest⟩ := List.nodup_cons.mp hnodup
    by_cases hk : k = k'
    · subst hk
      have hnot : (k, a) ∉ rest := fun h => hhead (List.mem_map.mpr ⟨_, h, rfl⟩)
      simp [hnot, eq_comm]
    · have hne : (k == k') = false := by simpa using hk
      simp [List.lookup_cons, hne, hk, ih hrest]

/-- Entries in strictly increasing key order. -/
structure OrderedMap (κ α : Type) [LinearOrder κ] where
  entries : List (κ × α)
  sorted : entries.Pairwise fun a b => a.1 < b.1

namespace OrderedMap
variable {κ α : Type} [LinearOrder κ] {m : OrderedMap κ α} {k : κ} {a : α} {e : κ × α}

/-- Put `a` at `k` among sorted entries; `f` says what becomes of an entry already
there. -/
def insertWith (f : α → α → α) (k : κ) (a : α) : List (κ × α) → List (κ × α)
  | [] => [(k, a)]
  | (k', a') :: rest =>
    if k < k' then (k, a) :: (k', a') :: rest
    else if k = k' then (k', f a' a) :: rest
    else (k', a') :: insertWith f k a rest

theorem mem_insertWith_fst {f : α → α → α} {l : List (κ × α)} {x : κ × α}
    (h : x ∈ insertWith f k a l) : x.1 = k ∨ ∃ y ∈ l, y.1 = x.1 := by
  induction l with
  | nil =>
    simp only [insertWith, List.mem_singleton] at h
    exact .inl (by rw [h])
  | cons head rest ih =>
    obtain ⟨k', a'⟩ := head
    simp only [insertWith] at h
    split_ifs at h with hlt heq
    · rcases List.mem_cons.mp h with rfl | h
      · exact .inl rfl
      · exact .inr ⟨x, h, rfl⟩
    · rcases List.mem_cons.mp h with rfl | h
      · exact .inr ⟨(k', a'), List.mem_cons_self .., rfl⟩
      · exact .inr ⟨x, List.mem_cons_of_mem _ h, rfl⟩
    · rcases List.mem_cons.mp h with rfl | h
      · exact .inr ⟨(k', a'), List.mem_cons_self .., rfl⟩
      · rcases ih h with hk | ⟨y, hy, hyx⟩
        · exact .inl hk
        · exact .inr ⟨y, List.mem_cons_of_mem _ hy, hyx⟩

theorem insertWith_sorted (f : α → α → α) (k : κ) (a : α) (l : List (κ × α))
    (h : l.Pairwise fun a b => a.1 < b.1) :
    (insertWith f k a l).Pairwise fun a b => a.1 < b.1 := by
  induction l with
  | nil => exact List.pairwise_singleton ..
  | cons head rest ih =>
    obtain ⟨k', a'⟩ := head
    obtain ⟨hhead, hrest⟩ := List.pairwise_cons.mp h
    simp only [insertWith]
    split_ifs with hlt heq
    · refine List.pairwise_cons.mpr ⟨fun x hx => ?_, h⟩
      rcases List.mem_cons.mp hx with rfl | hx
      · exact hlt
      · exact hlt.trans (hhead x hx)
    · exact List.pairwise_cons.mpr ⟨hhead, hrest⟩
    · refine List.pairwise_cons.mpr ⟨fun x hx => ?_, ih hrest⟩
      rcases mem_insertWith_fst hx with hk | ⟨y, hy, hyx⟩
      · show k' < x.1
        rw [hk]
        exact lt_of_le_of_ne (not_lt.mp hlt) (Ne.symm heq)
      · show k' < x.1
        rw [← hyx]
        exact hhead y hy

def empty : OrderedMap κ α := ⟨[], List.Pairwise.nil⟩

instance : Inhabited (OrderedMap κ α) := ⟨empty⟩

/-- An entry already at the key stays. -/
def emplace (m : OrderedMap κ α) (k : κ) (a : α) : OrderedMap κ α :=
  ⟨insertWith (fun old _ => old) k a m.entries, insertWith_sorted _ k a _ m.sorted⟩

/-- An entry already at the key is replaced. -/
def assign (m : OrderedMap κ α) (k : κ) (a : α) : OrderedMap κ α :=
  ⟨insertWith (fun _ new => new) k a m.entries, insertWith_sorted _ k a _ m.sorted⟩

def get? (m : OrderedMap κ α) (k : κ) : Option α := m.entries.lookup k

def contains (m : OrderedMap κ α) (k : κ) : Bool := (m.get? k).isSome

def size (m : OrderedMap κ α) : ℕ := m.entries.length

/-- The first entry above a key. -/
def upperBound (m : OrderedMap κ α) (k : κ) : Option (κ × α) :=
  (m.entries.dropWhile fun e => e.1 ≤ k).head?

/-- The entry before `upperBound`. -/
def beforeUpperBound (m : OrderedMap κ α) (k : κ) : Option (κ × α) :=
  (m.entries.takeWhile fun e => e.1 ≤ k).getLast?

/-- The keys, as a set. -/
def keys (m : OrderedMap κ α) : Finset κ := (m.entries.map Prod.fst).toFinset

theorem mem_keys : k ∈ m.keys ↔ ∃ a, (k, a) ∈ m.entries := by
  simp only [keys, List.mem_toFinset, List.mem_map, Prod.exists, exists_and_right, exists_eq_right]

theorem nodup_keys (m : OrderedMap κ α) : (m.entries.map Prod.fst).Nodup :=
  m.sorted.map _ fun _ _ hab => ne_of_lt hab

theorem nodup_entries (m : OrderedMap κ α) : m.entries.Nodup := m.nodup_keys.of_map _

/-- No key is counted twice. -/
theorem size_eq_card (m : OrderedMap κ α) : m.size = m.keys.card := by
  rw [size, keys, List.toFinset_card_of_nodup m.nodup_keys, List.length_map]

@[simp] theorem keys_empty : (empty : OrderedMap κ α).keys = ∅ := rfl

theorem keys_insertWith (f : α → α → α) (k : κ) (a : α) (l : List (κ × α)) :
    ((insertWith f k a l).map Prod.fst).toFinset = insert k (l.map Prod.fst).toFinset := by
  induction l with
  | nil => simp [insertWith]
  | cons head rest ih =>
    obtain ⟨k', a'⟩ := head
    simp only [insertWith]
    split_ifs with hlt heq
    · simp
    · subst heq
      simp
    · simp only [List.map_cons, List.toFinset_cons, ih]
      exact Finset.insert_comm k' k _

@[simp] theorem keys_emplace (m : OrderedMap κ α) (k : κ) (a : α) :
    (m.emplace k a).keys = insert k m.keys :=
  keys_insertWith _ k a m.entries

/-- An entry is the new one, was there, or is what became of the one at the key. -/
theorem mem_insertWith {f : α → α → α} {l : List (κ × α)} (h : e ∈ insertWith f k a l) :
    e = (k, a) ∨ e ∈ l ∨ ∃ old, (k, old) ∈ l ∧ e = (k, f old a) := by
  induction l with
  | nil => exact .inl (List.mem_singleton.mp h)
  | cons head rest ih =>
    obtain ⟨k', a'⟩ := head
    simp only [insertWith] at h
    split_ifs at h with hlt heq
    · exact (List.mem_cons.mp h).imp_right .inl
    · subst heq
      rcases List.mem_cons.mp h with rfl | h
      · exact .inr (.inr ⟨a', List.mem_cons_self, rfl⟩)
      · exact .inr (.inl (List.mem_cons_of_mem _ h))
    · rcases List.mem_cons.mp h with rfl | h
      · exact .inr (.inl List.mem_cons_self)
      · rcases ih h with h | h | ⟨old, hold, h⟩
        · exact .inl h
        · exact .inr (.inl (List.mem_cons_of_mem _ h))
        · exact .inr (.inr ⟨old, List.mem_cons_of_mem _ hold, h⟩)

/-- An entry is the new one or was there. -/
theorem mem_emplace (h : e ∈ (m.emplace k a).entries) :
    e = (k, a) ∨ e ∈ m.entries := by
  rcases mem_insertWith h with h | h | ⟨old, hold, rfl⟩
  · exact .inl h
  · exact .inr h
  · exact .inr hold

theorem mem_assign (h : e ∈ (m.assign k a).entries) :
    e = (k, a) ∨ e ∈ m.entries := by
  rcases mem_insertWith h with h | h | ⟨old, -, h⟩
  · exact .inl h
  · exact .inr h
  · exact .inl h

theorem get?_eq_some :
    m.get? k = some a ↔ (k, a) ∈ m.entries :=
  lookup_eq_some_iff_mem m.nodup_keys

/-- As many keys as there are numbers from one to `T` are those numbers, in order. -/
theorem keys_eq_range' {m : OrderedMap ℕ α} {T : ℕ} (h : ∀ e ∈ m.entries, 1 ≤ e.1 ∧ e.1 ≤ T)
    (hsize : m.size = T) : m.entries.map Prod.fst = List.range' 1 T := by
  have hsorted : (m.entries.map Prod.fst).Pairwise (· < ·) := m.sorted.map _ fun _ _ hab => hab
  have hsub : m.entries.map Prod.fst ⊆ List.range' 1 T := by
    intro k hk
    obtain ⟨e, he, rfl⟩ := List.mem_map.mp hk
    have hbounds := h e he
    exact List.mem_range'_1.mpr (by omega)
  have hperm : (m.entries.map Prod.fst).Perm (List.range' 1 T) := by
    refine (List.subperm_of_subset (hsorted.imp ne_of_lt) hsub).perm_of_length_le ?_
    rw [List.length_range', List.length_map]
    exact hsize.ge
  exact hperm.eq_of_pairwise (fun _ _ _ _ hab hba => absurd hab hba.asymm) hsorted
    List.pairwise_lt_range'

/-- A key that was not there adds its entry. -/
theorem assign_perm (h : k ∉ m.entries.map Prod.fst) (a : α) :
    (m.assign k a).entries.Perm ((k, a) :: m.entries) := by
  have hinsert : ∀ l : List (κ × α), k ∉ l.map Prod.fst →
      (insertWith (fun _ new => new) k a l).Perm ((k, a) :: l) := by
    intro l hk
    induction l with
    | nil => exact .refl _
    | cons head rest ih =>
      rw [List.map_cons, List.mem_cons, not_or] at hk
      obtain ⟨hne, hrest⟩ := hk
      simp only [insertWith]
      rw [if_neg hne]
      split_ifs
      · exact .refl _
      · exact ((ih hrest).cons head).trans (.swap ..)
  exact hinsert m.entries h

theorem contains_iff : m.contains k = true ↔ k ∈ m.keys := by
  have h : ∀ l : List (κ × α), (l.lookup k).isSome = true ↔ k ∈ (l.map Prod.fst).toFinset := by
    intro l
    induction l with
    | nil => simp
    | cons head rest ih =>
      obtain ⟨k', a'⟩ := head
      simp only [List.lookup_cons, List.map_cons, List.toFinset_cons, Finset.mem_insert]
      by_cases hk : k = k'
      · simp [hk]
      · have hne : (k == k') = false := by simpa using hk
        simp only [hne, hk, false_or]
        exact ih
  exact h m.entries

theorem size_emplace_of_not_contains (h : m.contains k = false) (a : α) :
    (m.emplace k a).size = m.size + 1 := by
  have hnot : k ∉ m.keys := fun hk => by
    rw [contains_iff.mpr hk] at h
    cases h
  rw [size_eq_card, keys_emplace, Finset.card_insert_of_notMem hnot, ← size_eq_card]

end OrderedMap

end SkaleConsensus.Library
