import Mathlib.Data.List.AList

/-! Stores kept in generations.

The entries of a store are in a fixed number of shards, newest first. A write goes to the
newest shard; a rotation puts an empty shard in front and drops the oldest. A key may have
copies in several shards, and the newest is found first.

What such a store is for is said by an `Aged` map: for every key the last value that was
written, and how many rotations ago. `Represents.put`, `Represents.putAt` and `Represents.rotate`
say that the shards hold exactly what is young enough. -/
namespace SkaleConsensus.Library

abbrev Shard (κ α : Type) := AList fun _ : κ => α

section Generations
variable {κ α : Type} [DecidableEq κ] {shards : List (Shard κ α)} {k : κ}

def Shard.filter (wanted : κ → Bool) (shard : Shard κ α) : Shard κ α where
  entries := shard.entries.filter fun e => wanted e.1
  nodupKeys := shard.nodupKeys.sublist List.filter_sublist

theorem Shard.lookup_filter (wanted : κ → Bool) (shard : Shard κ α) (k : κ) :
    (Shard.filter wanted shard).lookup k = if wanted k then shard.lookup k else none := by
  refine Option.ext fun a => ?_
  rw [← Option.mem_def, AList.mem_lookup_iff]
  show ⟨k, a⟩ ∈ shard.entries.filter _ ↔ _
  rw [List.mem_filter]
  split_ifs with hwanted
  · simp [hwanted, ← AList.mem_lookup_iff]
  · simp [hwanted]

/-- The newest value of a key, and how many shards are newer than the one it is in. -/
def locate (k : κ) : List (Shard κ α) → Option (α × ℕ)
  | [] => none
  | shard :: older =>
    match shard.lookup k with
    | some a => some (a, 0)
    | none => (locate k older).map fun e => (e.1, e.2 + 1)

theorem findSome?_lookup (k : κ) (shards : List (Shard κ α)) :
    shards.findSome? (AList.lookup k) = (locate k shards).map Prod.fst := by
  induction shards with
  | nil => rfl
  | cons shard older ih =>
    cases h : shard.lookup k with
    | some a => simp [locate, h]
    | none => simp [locate, h, ih, Function.comp_def]

/-- The shards merged: an entry that is there already stays. -/
def merge (wanted : κ → Bool) (shards : List (Shard κ α)) : Shard κ α :=
  shards.foldl (fun result shard => result ∪ Shard.filter wanted shard) ∅

theorem lookup_union (k : κ) (s t : Shard κ α) :
    (s ∪ t).lookup k = (s.lookup k).or (t.lookup k) := by
  cases h : s.lookup k with
  | some a => rw [AList.lookup_union_left (AList.lookup_isSome.mp (by simp [h])), h]; rfl
  | none => rw [AList.lookup_union_right (AList.lookup_eq_none.mp h)]; rfl

theorem lookup_merge (wanted : κ → Bool) (shards : List (Shard κ α)) (k : κ) :
    (merge wanted shards).lookup k =
      if wanted k then (locate k shards).map Prod.fst else none := by
  have hfold : ∀ result : Shard κ α,
      (shards.foldl (fun result shard => result ∪ Shard.filter wanted shard) result).lookup k =
        (result.lookup k).or (if wanted k then shards.findSome? (AList.lookup k) else none) := by
    induction shards with
    | nil => intro result; simp
    | cons shard older ih =>
      intro result
      rw [List.foldl_cons, ih, lookup_union, Shard.lookup_filter, Option.or_assoc]
      congr 1
      split_ifs
      · cases h : shard.lookup k <;> simp [h]
      · rfl
  rw [← findSome?_lookup]
  exact (hfold ∅).trans (by simp)

/-! ### Writing and rotating -/

theorem locate_insert_self (k : κ) (a : α) (shard : Shard κ α) (older : List (Shard κ α)) :
    locate k (shard.insert k a :: older) = some (a, 0) := by
  simp [locate]

theorem locate_insert_of_ne {k' : κ} (h : k' ≠ k) (a : α) (shard : Shard κ α)
    (older : List (Shard κ α)) :
    locate k' (shard.insert k a :: older) = locate k' (shard :: older) := by
  simp [locate, AList.lookup_insert_ne h]

/-- Dropping shards forgets what was found beyond. -/
theorem locate_take (k : κ) (shards : List (Shard κ α)) (n : ℕ) :
    locate k (shards.take n) = (locate k shards).filter fun e => e.2 < n := by
  induction shards generalizing n with
  | nil => simp [locate]
  | cons shard older ih =>
    cases n with
    | zero => cases h : locate k (shard :: older) <;> simp [locate]
    | succ n =>
      cases h : shard.lookup k with
      | some a => simp [locate, h, Option.filter_some]
      | none =>
        rw [List.take_succ_cons]
        simp only [locate, h, ih]
        cases locate k older with
        | none => rfl
        | some e => by_cases he : e.2 < n <;> simp [Option.filter_some, he]

theorem locate_lt {e : α × ℕ} (h : locate k shards = some e) :
    e.2 < shards.length := by
  have htake := locate_take k shards shards.length
  rw [List.take_length, h] at htake
  exact of_decide_eq_true (Option.filter_eq_some_iff.mp htake.symm).2

/-- What is found is in the shard it is found in. -/
theorem lookup_of_locate {e : α × ℕ} (h : locate k shards = some e) :
    ∃ shard, shards[e.2]? = some shard ∧ shard.lookup k = some e.1 := by
  induction shards generalizing e with
  | nil => cases h
  | cons shard older ih =>
    unfold locate at h
    split at h
    next a ha =>
      cases h
      exact ⟨shard, rfl, ha⟩
    next =>
      obtain ⟨e', he', rfl⟩ := Option.map_eq_some_iff.mp h
      exact ih he'

theorem locate_modify_of_ne {k' : κ} (h : k' ≠ k) (a : α) (shards : List (Shard κ α)) (i : ℕ) :
    locate k' (shards.modify i (·.insert k a)) = locate k' shards := by
  induction shards generalizing i with
  | nil => rw [List.modify_nil]
  | cons shard older ih =>
    cases i with
    | zero => exact locate_insert_of_ne h a shard older
    | succ i => rw [List.modify_succ_cons, locate, locate, ih]

/-- A copy in an older shard is found if no newer shard has one. -/
theorem locate_modify_self {i : ℕ} (hi : i < shards.length) (hold : ∀ e ∈ locate k shards, i ≤ e.2)
    (a : α) :
    locate k (shards.modify i (·.insert k a)) = some (a, i) := by
  induction shards generalizing i with
  | nil => cases hi
  | cons shard older ih =>
    cases i with
    | zero => exact locate_insert_self k a shard older
    | succ i =>
      have hnew : shard.lookup k = none := by
        cases hk : shard.lookup k with
        | none => rfl
        | some b => exact absurd (hold (b, 0) (by simp [locate, hk])) (Nat.not_succ_le_zero i)
      have hlater := ih (Nat.lt_of_succ_lt_succ hi) fun e he =>
        Nat.le_of_succ_le_succ (hold (e.1, e.2 + 1) (by
          simp only [locate, hnew]
          exact Option.mem_map_of_mem _ he))
      rw [List.modify_succ_cons, locate, hnew]
      dsimp only
      rw [hlater]
      rfl

/-- For every key the last value that was written, and how many rotations ago. -/
abbrev Aged (κ α : Type) := κ → Option (α × ℕ)

namespace Aged

def put (m : Aged κ α) (k : κ) (a : α) : Aged κ α := fun k' => if k' = k then some (a, 0) else m k'

/-- The value is put where older values are. -/
def putAt (m : Aged κ α) (k : κ) (a : α) (age : ℕ) : Aged κ α :=
  fun k' => if k' = k then some (a, age) else m k'

def rotate (m : Aged κ α) : Aged κ α := fun k => (m k).map fun e => (e.1, e.2 + 1)

def rotateIf (m : Aged κ α) (full : Bool) : Aged κ α := if full then m.rotate else m

/-- What `n` shards still have. -/
def retained (m : Aged κ α) (n : ℕ) (k : κ) : Option (α × ℕ) := (m k).filter fun e => e.2 < n

end Aged

/-- The shards hold what is young enough. -/
def Represents (shards : List (Shard κ α)) (m : Aged κ α) : Prop :=
  ∀ k, locate k shards = m.retained shards.length k

variable {shards : List (Shard κ α)} {m : Aged κ α}

theorem represents_empty (n : ℕ) : Represents (List.replicate n (∅ : Shard κ α)) fun _ => none := by
  intro k
  induction n with
  | zero => rfl
  | succ n ih => simp_all [List.replicate_succ, locate, Aged.retained]

theorem Represents.put {shard : Shard κ α} (h : Represents (shard :: shards) m) (k : κ) (a : α) :
    Represents (shard.insert k a :: shards) (m.put k a) := by
  intro k'
  by_cases hk : k' = k
  · subst hk
    simp [locate_insert_self, Aged.put, Aged.retained, Option.filter_some]
  · rw [locate_insert_of_ne hk, h k']
    simp [Aged.put, Aged.retained, hk]

theorem Represents.putAt (h : Represents shards m) {age : ℕ} (hage : age < shards.length)
    (hold : ∀ e ∈ m.retained shards.length k, age ≤ e.2) (a : α) :
    Represents (shards.modify age (·.insert k a)) (m.putAt k a age) := by
  intro k'
  rw [List.length_modify]
  by_cases hk : k' = k
  · subst hk
    rw [locate_modify_self hage (h k' ▸ hold)]
    simp [Aged.putAt, Aged.retained, Option.filter_some, hage]
  · rw [locate_modify_of_ne hk, h k']
    simp [Aged.putAt, Aged.retained, hk]

theorem Represents.rotate (h : Represents shards m) :
    Represents ((∅ :: shards).take shards.length) m.rotate := by
  intro k
  rw [locate_take]
  simp only [locate, AList.lookup_empty, h k, Aged.retained, Aged.rotate, List.length_take,
    List.length_cons, Nat.min_eq_left (Nat.le_succ _)]
  cases m k with
  | none => rfl
  | some e =>
    by_cases he : e.2 + 1 < shards.length
    · simp [Option.filter_some, he, Nat.lt_of_succ_lt he]
    · by_cases he' : e.2 < shards.length <;> simp [Option.filter_some, he, he']

end Generations

end SkaleConsensus.Library
