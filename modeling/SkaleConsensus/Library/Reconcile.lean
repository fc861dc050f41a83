import Mathlib.Data.List.Basic
import Mathlib.Data.List.Forall2

/-! Sending a list to a peer that may have some of its items.

The sender names its items by keys. The receiver looks them up one after the other, in a store that
may change in between, and asks for the keys it did not find; the sender answers with all its items
of these keys. The receiver puts its list together from what it found and what it got.

If no two items share a key, it is the sender's list (`rebuilt_eq`). As many items come as were
asked for only if each key was found wherever it was looked up, or nowhere
(`length_selected_eq_iff`). -/
namespace SkaleConsensus.Library.Reconcile

/-! ### Keys of one length -/

section Blocks
variable {β : Type} {w : ℕ}

/-- The `i`-th of the blocks of length `w` that follow each other. -/
def block (w : ℕ) (bytes : List β) (i : ℕ) : List β := (bytes.drop (w * i)).take w

theorem map_block_range {blocks : List (List β)} (h : ∀ b ∈ blocks, b.length = w) :
    (List.range blocks.length).map (block w blocks.flatten) = blocks := by
  induction blocks with
  | nil => rfl
  | cons b blocks ih =>
    have hb := h b List.mem_cons_self
    have hfirst : block w (b ++ blocks.flatten) 0 = b := List.take_left' hb
    have hnext : block w (b ++ blocks.flatten) ∘ Nat.succ = block w blocks.flatten := by
      funext i
      have hskip : w * (i + 1) = b.length + w * i := by rw [hb, Nat.mul_succ, Nat.add_comm]
      unfold block
      rw [Function.comp_apply, Nat.succ_eq_add_one, hskip, List.drop_length_add_append]
    rw [List.flatten_cons, List.length_cons, List.range_succ_eq_map, List.map_cons, List.map_map,
      hfirst, hnext, ih fun b' hb' => h b' (List.mem_cons_of_mem b hb')]

theorem length_flatten_blocks {blocks : List (List β)} (h : ∀ b ∈ blocks, b.length = w) :
    blocks.flatten.length = blocks.length * w := by
  induction blocks with
  | nil => exact (Nat.zero_mul w).symm
  | cons b blocks ih =>
    rw [List.flatten_cons, List.length_append, h b List.mem_cons_self,
      ih fun b' hb' => h b' (List.mem_cons_of_mem b hb'), List.length_cons, Nat.succ_mul,
      Nat.add_comm]

end Blocks

/-! ### The exchange -/

section Lookups
variable {κ α : Type}

/-- What was found, key by key. -/
def lookups (found : ℕ → κ → Option α) (keys : List κ) : List (κ × Option α) :=
  keys.zipIdx.map fun entry => (entry.1, found entry.2 entry.1)

/-- The keys that were not found, in their order. -/
def missing (looked : List (κ × Option α)) : List κ := (looked.filter (·.2.isNone)).map Prod.fst

/-- Each key was found wherever it was looked up, or nowhere. -/
def Steady (looked : List (κ × Option α)) : Prop :=
  ∀ x ∈ looked, ∀ y ∈ looked, x.1 = y.1 → x.2 = none → y.2 = none

instance decidableSteady [DecidableEq κ] (looked : List (κ × Option α)) :
    Decidable (Steady looked) :=
  inferInstanceAs (Decidable (∀ x ∈ looked, ∀ y ∈ looked, x.1 = y.1 → x.2 = none → y.2 = none))

/-- What is found goes before what was received. -/
def rebuilt (got : κ → Option α) (looked : List (κ × Option α)) : Option (List α) :=
  looked.mapM fun x => x.2.or (got x.1)

variable {looked : List (κ × Option α)} {found : ℕ → κ → Option α}

theorem mem_missing {k : κ} : k ∈ missing looked ↔ ∃ x ∈ looked, x.2 = none ∧ x.1 = k := by
  unfold missing
  simp only [List.mem_map, List.mem_filter, Option.isNone_iff_eq_none, and_assoc]

theorem length_missing_le (looked : List (κ × Option α)) :
    (missing looked).length ≤ looked.length := by
  unfold missing
  rw [List.length_map]
  exact List.length_filter_le ..

theorem steady_of_missing_eq_nil (h : missing looked = []) : Steady looked := by
  intro x hx _ _ _ hnone
  have hmem : x.1 ∈ missing looked := mem_missing.mpr ⟨x, hx, hnone, rfl⟩
  rw [h] at hmem
  exact absurd hmem List.not_mem_nil

theorem map_fst_lookups (keys : List κ) : (lookups found keys).map Prod.fst = keys := by
  unfold lookups
  rw [List.map_map]
  exact List.zipIdx_map_fst 0 keys

theorem exists_of_mem_lookups {keys : List κ} {x : κ × Option α} (h : x ∈ lookups found keys) :
    ∃ i, x.2 = found i x.1 := by
  obtain ⟨⟨k, i⟩, -, rfl⟩ := List.mem_map.mp h
  exact ⟨i, rfl⟩

/-- Each key is asked for in its place. -/
theorem missing_sublist (looked : List (κ × Option α)) :
    (missing looked).Sublist (looked.map Prod.fst) :=
  List.filter_sublist.map _

/-- The list is complete if something is there for every key. -/
theorem exists_rebuilt (got : κ → Option α) {P : κ → α → Prop}
    (h : ∀ x ∈ looked, ∃ a, x.2.or (got x.1) = some a ∧ P x.1 a) :
    ∃ items, rebuilt got looked = some items ∧ List.Forall₂ P (looked.map Prod.fst) items := by
  induction looked with
  | nil => exact ⟨[], rfl, .nil⟩
  | cons x rest ih =>
    obtain ⟨a, ha, hP⟩ := h x List.mem_cons_self
    obtain ⟨items, hitems, hall⟩ := ih fun y hy => h y (List.mem_cons_of_mem x hy)
    unfold rebuilt at hitems
    refine ⟨a :: items, ?_, .cons hP hall⟩
    unfold rebuilt
    rw [List.mapM_cons, ha, hitems]
    rfl

theorem lookups_map {key : α → κ} (items : List α) :
    lookups found (items.map key) =
      items.zipIdx.map fun entry => (key entry.1, found entry.2 (key entry.1)) := by
  unfold lookups
  rw [List.zipIdx_map, List.map_map]
  rfl

theorem mapM_eq_some {γ δ : Type} {l : List γ} {g : γ → Option δ} {f : γ → δ}
    (h : ∀ x ∈ l, g x = some (f x)) : l.mapM g = some (l.map f) := by
  induction l with
  | nil => rfl
  | cons x l ih =>
    rw [List.mapM_cons, h x List.mem_cons_self, ih fun y hy => h y (List.mem_cons_of_mem x hy)]
    rfl

theorem rebuilt_lookups {got : κ → Option α} {key : α → κ} {items : List α}
    (h : ∀ entry ∈ items.zipIdx,
      (found entry.2 (key entry.1)).or (got (key entry.1)) = some entry.1) :
    rebuilt got (lookups found (items.map key)) = some items := by
  have hmap := mapM_eq_some h
  unfold rebuilt
  rw [lookups_map, List.mapM_map]
  exact hmap.trans (congrArg some (List.zipIdx_map_fst 0 items))

end Lookups

section Answers
variable {κ α : Type} [DecidableEq κ]

/-- What is sent for these keys. -/
def selected (key : α → κ) (keys : List κ) (items : List α) : List α :=
  items.filter fun item => decide (key item ∈ keys)

/-- A map that items were put into one after the other, so that the last of a key stays. -/
def received (key : α → κ) (items : List α) (k : κ) : Option α :=
  items.reverse.find? fun item => decide (key item = k)

variable {looked : List (κ × Option α)} {found : ℕ → κ → Option α} {key : α → κ} {items : List α}
  {item : α}

theorem mem_selected {keys : List κ} :
    item ∈ selected key keys items ↔ item ∈ items ∧ key item ∈ keys := by
  unfold selected
  rw [List.mem_filter, decide_eq_true_iff]

/-- What is sent stands where a key is that was asked for. -/
theorem length_selected (h : looked.map Prod.fst = items.map key) (keys : List κ) :
    (selected key keys items).length = (looked.filter fun x => decide (x.1 ∈ keys)).length := by
  have hside : ∀ {γ : Type} (f : γ → κ) (l : List γ),
      (l.filter fun x => decide (f x ∈ keys)).length =
        ((l.map f).filter fun k => decide (k ∈ keys)).length := by
    intro γ f l
    rw [List.filter_map, List.length_map]
    rfl
  unfold selected
  rw [hside key items, ← h, ← hside Prod.fst looked]

/-- The answer is as long as the request exactly if nothing comes that was found. -/
theorem length_selected_eq_iff (h : looked.map Prod.fst = items.map key) :
    (selected key (missing looked) items).length = (missing looked).length ↔ Steady looked := by
  have hasked : ∀ x ∈ looked, x.2 = none → x.1 ∈ missing looked :=
    fun x hx hnone => mem_missing.mpr ⟨x, hx, hnone, rfl⟩
  have hlength : (missing looked).length = (looked.filter (·.2.isNone)).length := List.length_map _
  rw [length_selected h, hlength]
  constructor
  · intro heq x hx y hy hkey hnone
    have hsub : (looked.filter (·.2.isNone)).Sublist
        (looked.filter fun x => decide (x.1 ∈ missing looked)) := by
      have htwice : (looked.filter fun x => decide (x.1 ∈ missing looked)).filter (·.2.isNone) =
          looked.filter (·.2.isNone) := by
        rw [List.filter_filter]
        apply List.filter_congr
        intro z hz
        cases hz₂ : z.2 with
        | none => rw [decide_eq_true (hasked z hz hz₂), Bool.and_true]
        | some _ => rfl
      exact htwice ▸ List.filter_sublist
    have hmem : y ∈ looked.filter fun x => decide (x.1 ∈ missing looked) :=
      List.mem_filter.mpr ⟨hy, decide_eq_true (hkey ▸ hasked x hx hnone)⟩
    rw [← hsub.eq_of_length heq.symm] at hmem
    exact Option.isNone_iff_eq_none.mp (List.mem_filter.mp hmem).2
  · intro hsteady
    apply congrArg List.length
    apply List.filter_congr
    intro y hy
    rw [Bool.eq_iff_iff, decide_eq_true_iff, Option.isNone_iff_eq_none]
    refine ⟨fun hmem => ?_, hasked y hy⟩
    obtain ⟨x, hx, hnone, hkey⟩ := mem_missing.mp hmem
    exact hsteady x hx y hy hkey hnone

theorem mem_of_received {k : κ} (h : received key items k = some item) :
    item ∈ items ∧ key item = k := by
  unfold received at h
  have hkey := List.find?_some h
  exact ⟨List.mem_reverse.mp (List.mem_of_find?_eq_some h), of_decide_eq_true hkey⟩

theorem exists_received {k : κ} (h : ∃ item ∈ items, key item = k) :
    ∃ item, received key items k = some item := by
  obtain ⟨item, hmem, hkey⟩ := h
  rw [← Option.isSome_iff_exists]
  exact List.find?_isSome.mpr ⟨item, List.mem_reverse.mpr hmem, decide_eq_true hkey⟩

theorem received_eq (hmem : item ∈ items)
    (hinj : ∀ other ∈ items, key other = key item → other = item) :
    received key items (key item) = some item := by
  obtain ⟨other, hother⟩ :=
    exists_received (⟨item, hmem, rfl⟩ : ∃ other ∈ items, key other = key item)
  obtain ⟨hmem', hkey⟩ := mem_of_received hother
  rw [hother, hinj other hmem' hkey]

/-- What the receiver has in the end is what the sender has. -/
theorem rebuilt_eq (hfound : ∀ i, ∀ item ∈ items, ∀ other ∈ found i (key item), other = item)
    (hinj : ∀ item ∈ items, ∀ other ∈ items, key other = key item → other = item) :
    rebuilt (received key (selected key (missing (lookups found (items.map key))) items))
      (lookups found (items.map key)) = some items := by
  apply rebuilt_lookups
  rintro ⟨item, i⟩ hentry
  have hmem : item ∈ items := List.fst_mem_of_mem_zipIdx hentry
  cases hlook : found i (key item) with
  | some other => rw [hfound i item hmem other hlook, Option.some_or]
  | none =>
    have hasked : key item ∈ missing (lookups found (items.map key)) := by
      rw [lookups_map]
      exact mem_missing.mpr ⟨_, List.mem_map_of_mem hentry, hlook, rfl⟩
    rw [Option.none_or]
    exact received_eq (mem_selected.mpr ⟨hmem, hasked⟩)
      fun other hother => hinj item hmem other (mem_selected.mp hother).1

end Answers

end SkaleConsensus.Library.Reconcile
