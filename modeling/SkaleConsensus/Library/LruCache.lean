import SkaleConsensus.Library.OrderedMap
import Mathlib.Order.Interval.Finset.Nat

/-! Caches that forget the entry unused longest.

The entries stand most recently used first. That no key occurs twice and that the
cache is not over its size are fields. A `put` goes to the front and may push the
last entry out; a lookup that hits moves its entry to the front (`touch`) and so
changes what is forgotten, never what is found. As long as no more keys are used
than there is room for, nothing that was used is forgotten (`Fronts`); so twice the
room of a window that only moves up is enough for the keys in it (`Sliding`). -/
namespace SkaleConsensus.Library

/-- At most `maxSize` entries, most recently used first. -/
structure LruCache (κ α : Type) (maxSize : ℕ) where
  entries : List (κ × α)
  nodup : (entries.map Prod.fst).Nodup
  bounded : entries.length ≤ maxSize

namespace LruCache
variable {κ α : Type} {maxSize : ℕ}

def empty : LruCache κ α maxSize := ⟨[], List.nodup_nil, Nat.zero_le _⟩

instance : Inhabited (LruCache κ α maxSize) := ⟨empty⟩

variable [DecidableEq κ] {c : LruCache κ α maxSize} {k : κ} {a : α}

def others (c : LruCache κ α maxSize) (k : κ) : List (κ × α) :=
  c.entries.filter fun e => e.1 ≠ k

theorem mem_others {e : κ × α} :
    e ∈ c.others k ↔ e ∈ c.entries ∧ e.1 ≠ k := by
  simp [others]

theorem nodup_cons_others (c : LruCache κ α maxSize) (k : κ) (a : α) :
    (((k, a) :: c.others k).map Prod.fst).Nodup := by
  refine List.nodup_cons.mpr ⟨fun hk => ?_, ?_⟩
  · obtain ⟨e, he, hek⟩ := List.mem_map.mp hk
    exact (mem_others.mp he).2 hek
  · exact (List.filter_sublist.map Prod.fst).nodup c.nodup

/-- The entry of `k` goes to the front; over the size, the last entry is gone. -/
def put (c : LruCache κ α maxSize) (k : κ) (a : α) : LruCache κ α maxSize where
  entries := ((k, a) :: c.others k).take maxSize
  nodup := ((List.take_sublist ..).map Prod.fst).nodup (c.nodup_cons_others k a)
  bounded := List.length_take_le ..

def get? (c : LruCache κ α maxSize) (k : κ) : Option α := c.entries.lookup k

def contains (c : LruCache κ α maxSize) (k : κ) : Bool := (c.get? k).isSome

/-- What `get` and `getIfExists` do to the order. -/
def touch (c : LruCache κ α maxSize) (k : κ) : LruCache κ α maxSize :=
  match c.get? k with
  | none => c
  | some a => c.put k a

theorem get?_eq_some :
    c.get? k = some a ↔ (k, a) ∈ c.entries :=
  lookup_eq_some_iff_mem c.nodup

@[simp] theorem get?_empty (k : κ) : (empty : LruCache κ α maxSize).get? k = none := rfl

/-- What is found after a `put` was put or was found before. -/
theorem of_get?_put {k' : κ} {a' : α} (h : (c.put k a).get? k' = some a') :
    k' = k ∧ a' = a ∨ k' ≠ k ∧ c.get? k' = some a' := by
  have hmem := List.mem_of_mem_take (get?_eq_some.mp h)
  rcases List.mem_cons.mp hmem with heq | hmem
  · cases heq
    exact .inl ⟨rfl, rfl⟩
  · exact .inr ⟨(mem_others.mp hmem).2, get?_eq_some.mpr (mem_others.mp hmem).1⟩

theorem get?_put_self (c : LruCache κ α maxSize) (k : κ) (a : α) (h : 0 < maxSize) :
    (c.put k a).get? k = some a := by
  obtain ⟨size, rfl⟩ := Nat.exists_eq_add_of_lt h
  refine get?_eq_some.mpr ?_
  show (k, a) ∈ List.take (0 + size + 1) _
  rw [List.take_succ_cons]
  exact List.mem_cons_self

/-- Of two values that are put under one key, the first is gone. -/
theorem entries_put_put_self (c : LruCache κ α maxSize) (k : κ) (a a' : α) :
    ((c.put k a).put k a').entries = (c.put k a').entries := by
  show ((k, a') :: (((k, a) :: c.others k).take maxSize).filter fun e => e.1 ≠ k).take maxSize =
    ((k, a') :: c.others k).take maxSize
  cases maxSize with
  | zero => rfl
  | succ n =>
    have hothers : ((c.others k).take n).filter (fun e => e.1 ≠ k) = (c.others k).take n :=
      List.filter_eq_self.mpr fun e he => by simpa using (mem_others.mp (List.mem_of_mem_take he)).2
    simp only [List.take_succ_cons]
    rw [List.filter_cons, if_neg (by simp), hothers, List.take_take, Nat.min_self]

/-- What is put under a new key stands in front of everything. -/
theorem entries_put_of_get?_eq_none (h : c.get? k = none) (a : α) :
    (c.put k a).entries = ((k, a) :: c.entries).take maxSize := by
  have hothers : c.others k = c.entries := by
    refine List.filter_eq_self.mpr fun e he => decide_eq_true fun heq => ?_
    have hfound : c.get? k = some e.2 := get?_eq_some.mpr (heq ▸ he)
    rw [h] at hfound
    cases hfound
  show ((k, a) :: c.others k).take maxSize = _
  rw [hothers]

/-- A cache with an entry for a key has room for it. -/
theorem length_others_lt (h : c.get? k = some a) :
    (c.others k).length < c.entries.length := by
  refine List.length_filter_lt_length_iff_exists.mpr ⟨(k, a), get?_eq_some.mp h, ?_⟩
  simp

/-- A lookup changes nothing that can be found. -/
@[simp] theorem get?_touch (c : LruCache κ α maxSize) (k k' : κ) :
    (c.touch k).get? k' = c.get? k' := by
  unfold touch
  cases hk : c.get? k with
  | none => rfl
  | some a =>
    have hroom : ((k, a) :: c.others k).length ≤ maxSize :=
      Nat.le_trans (length_others_lt hk) c.bounded
    have hmem : ∀ e, e ∈ (c.put k a).entries ↔ e ∈ c.entries := by
      intro e
      show e ∈ List.take maxSize ((k, a) :: c.others k) ↔ _
      rw [List.take_of_length_le hroom, List.mem_cons, mem_others]
      constructor
      · rintro (rfl | h)
        · exact get?_eq_some.mp hk
        · exact h.1
      · intro he
        by_cases hek : e.1 = k
        · refine .inl ?_
          have hke : c.get? k = some e.2 := get?_eq_some.mpr (hek ▸ he)
          rw [hk] at hke
          exact Prod.ext hek (Option.some.inj hke).symm
        · exact .inr ⟨he, hek⟩
    refine Option.ext fun a' => ?_
    show (c.put k a).get? k' = some a' ↔ _
    rw [get?_eq_some, get?_eq_some, hmem]

/-! ### What is not forgotten -/

/-- The entries of the wanted keys stand in front of all entries whose keys were not used. -/
def Fronts (c : LruCache κ α maxSize) (used : Finset κ) (wanted : κ → Prop) : Prop :=
  ∃ front back, c.entries = front ++ back ∧ (∀ e ∈ front, e.1 ∈ used) ∧ ∀ e ∈ back, ¬ wanted e.1

section Fronts
variable {c : LruCache κ α maxSize} {used used' : Finset κ} {wanted : κ → Prop} {k : κ}

omit [DecidableEq κ] in
theorem fronts_of_forall_not (h : ∀ e ∈ c.entries, ¬ wanted e.1) : c.Fronts used wanted :=
  ⟨[], c.entries, rfl, nofun, h⟩

omit [DecidableEq κ] in
theorem Fronts.mono (h : c.Fronts used wanted) (hsub : used ⊆ used') : c.Fronts used' wanted := by
  obtain ⟨front, back, hentries, hfront, hback⟩ := h
  exact ⟨front, back, hentries, fun e he => hsub (hfront e he), hback⟩

/-- The entries in front of a `put`, if no more keys are used than there is room for. -/
theorem Fronts.entries_put (h : c.Fronts used wanted) (hk : k ∈ used)
    (hroom : used.card ≤ maxSize) (a : α) :
    ∃ front back back', c.entries = front ++ back ∧ (∀ e ∈ front, e.1 ∈ used) ∧
      (∀ e ∈ back, ¬ wanted e.1) ∧ (∀ e ∈ back', e ∈ back) ∧
      (c.put k a).entries = (k, a) :: front.filter (fun e => e.1 ≠ k) ++ back' := by
  obtain ⟨front, back, hentries, hfront, hback⟩ := h
  have hothers : c.others k = front.filter (fun e => e.1 ≠ k) ++ back.filter fun e => e.1 ≠ k := by
    rw [others, hentries, List.filter_append]
  have hnodup := c.nodup_cons_others k a
  rw [hothers, ← List.cons_append, List.map_append] at hnodup
  -- the keys in front are different and all used
  have hlength : ((k, a) :: front.filter fun e => e.1 ≠ k).length ≤ maxSize := by
    refine le_trans ?_ hroom
    rw [← List.length_map (f := Prod.fst),
      ← List.toFinset_card_of_nodup (List.nodup_append.mp hnodup).1]
    refine Finset.card_le_card fun key hkey => ?_
    obtain ⟨e, he, rfl⟩ := List.mem_map.mp (List.mem_toFinset.mp hkey)
    rcases List.mem_cons.mp he with rfl | he
    · exact hk
    · exact hfront e (List.mem_of_mem_filter he)
  refine ⟨front, back, (back.filter fun e => e.1 ≠ k).take
    (maxSize - ((k, a) :: front.filter fun e => e.1 ≠ k).length), hentries, hfront, hback,
    fun e he => List.mem_of_mem_filter (List.mem_of_mem_take he), ?_⟩
  show ((k, a) :: c.others k).take maxSize = _
  rw [hothers, ← List.cons_append, List.take_append, List.take_of_length_le hlength]

omit [DecidableEq κ] in
theorem Fronts.not_wanted (h : c.Fronts ∅ wanted) : ∀ e ∈ c.entries, ¬ wanted e.1 := by
  obtain ⟨front, back, hentries, hfront, hback⟩ := h
  intro e he
  rw [hentries] at he
  rcases List.mem_append.mp he with he | he
  · exact absurd (hfront e he) (Finset.notMem_empty _)
  · exact hback e he

section Front
variable (h : c.Fronts used wanted) (hk : k ∈ used) (hroom : used.card ≤ maxSize)
include h hk hroom

theorem Fronts.put (a : α) : (c.put k a).Fronts used wanted := by
  obtain ⟨front, back, back', -, hfront, hback, hsub, hput⟩ := h.entries_put hk hroom a
  refine ⟨_, back', hput, fun e he => ?_, fun e he => hback e (hsub e he)⟩
  rcases List.mem_cons.mp he with rfl | he
  · exact hk
  · exact hfront e (List.mem_of_mem_filter he)

/-- A `put` does not push out what is wanted. -/
theorem Fronts.get?_put (a : α) {k' : κ} (hne : k' ≠ k) (hwanted : wanted k') :
    (c.put k a).get? k' = c.get? k' := by
  obtain ⟨front, back, back', hentries, -, hback, hsub, hput⟩ := h.entries_put hk hroom a
  refine Option.ext fun a' => ?_
  rw [get?_eq_some, get?_eq_some, hput, hentries]
  have hback_not : (k', a') ∉ back := fun hmem => hback _ hmem hwanted
  have hback'_not : (k', a') ∉ back' := fun hmem => hback_not (hsub _ hmem)
  simp [hne, hback_not, hback'_not]

theorem Fronts.get?_put_eq (a : α) {k' : κ} (hwanted : wanted k') :
    (c.put k a).get? k' = if k' = k then some a else c.get? k' := by
  split_ifs with heq
  · subst heq
    exact c.get?_put_self k' a ((Finset.card_pos.mpr ⟨k', hk⟩).trans_le hroom)
  · exact h.get?_put hk hroom a heq hwanted

theorem Fronts.touch : (c.touch k).Fronts used wanted := by
  unfold LruCache.touch
  cases c.get? k with
  | none => exact h
  | some a => exact h.put hk hroom a

end Front

end Fronts

/-! ### Sequences of uses -/

/-- The cache after some of these keys were put or looked up. -/
inductive Uses (keys : List κ) (c : LruCache κ α maxSize) : LruCache κ α maxSize → Prop where
  | refl : Uses keys c c
  | put {c' : LruCache κ α maxSize} (h : Uses keys c c') {k : κ} (hk : k ∈ keys) (a : α) :
    Uses keys c (c'.put k a)

section Uses
variable {keys : List κ} {c c' : LruCache κ α maxSize} {used : Finset κ} {wanted : κ → Prop}

theorem Uses.mono {keys' : List κ} (h : Uses keys c c') (hsub : keys ⊆ keys') :
    Uses keys' c c' := by
  induction h with
  | refl => exact .refl
  | put _ hk a ih => exact ih.put (hsub hk) a

theorem Uses.touch (h : Uses keys c c') {k : κ} (hk : k ∈ keys) : Uses keys c (c'.touch k) := by
  unfold LruCache.touch
  cases c'.get? k with
  | none => exact h
  | some a => exact h.put hk a

/-- Nothing comes in but the keys that are used. -/
theorem Uses.mem_entries (h : Uses keys c c') {e : κ × α} (he : e ∈ c'.entries) :
    e.1 ∈ keys ∨ e ∈ c.entries := by
  induction h with
  | refl => exact .inr he
  | put _ hk a ih =>
    rcases List.mem_cons.mp (List.mem_of_mem_take he) with rfl | he
    · exact .inl hk
    · exact ih (mem_others.mp he).1

theorem Uses.fronts (h : Uses keys c c') (hc : c.Fronts used wanted)
    (hkeys : ∀ k ∈ keys, k ∈ used) (hroom : used.card ≤ maxSize) : c'.Fronts used wanted := by
  induction h with
  | refl => exact hc
  | put _ hk a ih => exact ih.put (hkeys _ hk) hroom a

theorem Uses.get?_eq (h : Uses keys c c') (hc : c.Fronts used wanted)
    (hkeys : ∀ k ∈ keys, k ∈ used) (hroom : used.card ≤ maxSize) {k' : κ} (hk' : k' ∉ keys)
    (hwanted : wanted k') : c'.get? k' = c.get? k' := by
  induction h with
  | refl => rfl
  | @put c' h k hk a ih =>
    have hne : k' ≠ k := fun heq => hk' (heq ▸ hk)
    rw [(h.fronts hc hkeys hroom).get?_put (hkeys _ hk) hroom a hne hwanted, ih]

end Uses

/-! ### Windows that move up -/

/-- The keys used so far were, each in its time, among the last `width` up to a top that has
only grown. -/
structure Sliding (c : LruCache ℕ α maxSize) (top width : ℕ) : Prop where
  below : ∀ e ∈ c.entries, e.1 ≤ top
  fronts : ∀ k, top < k + width → c.Fronts (Finset.Icc (k + 1 - width) (k + width - 1)) (· = k)

section Sliding
variable {c : LruCache ℕ α maxSize} {top top' width k : ℕ}

theorem sliding_empty (top width : ℕ) : (empty : LruCache ℕ α maxSize).Sliding top width :=
  ⟨nofun, fun _ _ => fronts_of_forall_not nofun⟩

theorem Sliding.mono (h : c.Sliding top width) (htop : top ≤ top') : c.Sliding top' width :=
  ⟨fun e he => (h.below e he).trans htop, fun k hk => h.fronts k (htop.trans_lt hk)⟩

/-- The keys that may be used while one of them is in the window. -/
theorem card_window_le (hroom : 2 * width ≤ maxSize + 1) (k : ℕ) :
    (Finset.Icc (k + 1 - width) (k + width - 1)).card ≤ maxSize := by
  rw [Nat.card_Icc]
  omega

theorem Sliding.put (h : c.Sliding top width) (hroom : 2 * width ≤ maxSize + 1) (htop : k ≤ top)
    (hk : top < k + width) (a : α) : (c.put k a).Sliding top width := by
  have hbelow : ∀ e ∈ (c.put k a).entries, e.1 ≤ top := by
    intro e he
    rcases List.mem_cons.mp (List.mem_of_mem_take he) with rfl | he
    · exact htop
    · exact h.below e (mem_others.mp he).1
  refine ⟨hbelow, fun k' hk' => ?_⟩
  by_cases htop' : k' ≤ top
  · have hused : k ∈ Finset.Icc (k' + 1 - width) (k' + width - 1) := by
      rw [Finset.mem_Icc]
      omega
    exact (h.fronts k' hk').put hused (card_window_le hroom k') a
  · -- above the top there is nothing
    exact fronts_of_forall_not fun e he heq => htop' (heq ▸ hbelow e he)

theorem Sliding.touch (h : c.Sliding top width) (hroom : 2 * width ≤ maxSize + 1) (htop : k ≤ top)
    (hk : top < k + width) : (c.touch k).Sliding top width := by
  unfold LruCache.touch
  cases c.get? k with
  | none => exact h
  | some a => exact h.put hroom htop hk a

/-- What is still in the window is not pushed out. -/
theorem Sliding.get?_put (h : c.Sliding top width) (hroom : 2 * width ≤ maxSize + 1)
    (htop : k ≤ top) (hk : top < k + width) (a : α) {k' : ℕ} (hne : k' ≠ k)
    (hk' : top < k' + width) {a' : α} (hfound : c.get? k' = some a') :
    (c.put k a).get? k' = some a' := by
  have htop' : k' ≤ top := h.below _ (get?_eq_some.mp hfound)
  have hused : k ∈ Finset.Icc (k' + 1 - width) (k' + width - 1) := by
    rw [Finset.mem_Icc]
    omega
  rw [(h.fronts k' hk').get?_put hused (card_window_le hroom k') a hne rfl, hfound]

end Sliding

end LruCache

end SkaleConsensus.Library
