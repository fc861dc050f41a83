import SkaleConsensus.Db.CacheLevelDB
import SkaleConsensus.Library.Collect
import SkaleConsensus.Library.Execution
import SkaleConsensus.Library.Program

/-! Sets of signed values in the rotating database.

`writeByteArrayToSet` collects values for a block, one for each signer, and returns the set to
the caller whose value is the `requiredSigners`-th. A counter says how many there are. The
counter is searched in all open databases, newest first, and it is written together with the
entry to the database it was found in; so everything a block has is in one database, and is
removed with it.

What a set is for is said by an `Epoch`: the values that the calls brought since the block's
first one, as long as the database that was the newest then is open. -/
namespace SkaleConsensus.Db
open Library CacheLevelDB

namespace CacheLevelDB

section Code
variable (version : Bytes) (totalSigners : ℕ)

def readCount (s : CacheLevelDB) (blockId : ℕ) : ℕ :=
  let countString := s.readString (createCounterKey version blockId)
  if countString.isEmpty then 0
  else match stoull countString with
    | some result => if result ≤ totalSigners then result else 0
    | none => 0

def isEnough (s : CacheLevelDB) (blockId : ℕ) : Bool :=
  decide (getRequiredSigners totalSigners ≤ s.readCount version totalSigners blockId)

/-- The loop of `readSetUnsafe`, from an index on. -/
def readSetFrom (s : CacheLevelDB) (blockId : ℕ) :
    List SchainIndex → OrderedMap SchainIndex Bytes → OrderedMap SchainIndex Bytes
  | [], enoughSet => enoughSet
  | i :: rest, enoughSet =>
    let entry := s.readString (createKey version [blockId, i])
    let enoughSet := if entry.isEmpty then enoughSet else enoughSet.assign i entry
    if enoughSet.size = getRequiredSigners totalSigners then enoughSet
    else readSetFrom s blockId rest enoughSet

def readSetUnsafe (s : CacheLevelDB) (blockId : ℕ) : OrderedMap SchainIndex Bytes :=
  s.readSetFrom version totalSigners blockId (List.range' 1 totalSigners) .empty

/-- The counter of a block and the age of the database it is in; a block without one gets it
in the newest. `none` if the counter cannot be read. -/
def findCounter (s : CacheLevelDB) (blockId : ℕ) : Option (ℕ × ℕ) :=
  match locate (createCounterKey version blockId) s.newestFirst with
  | some (result, age) => (stoull result).map fun count => (count, age)
  | none => some (0, 0)

def setBatch (count : ℕ) (value : Bytes) (blockId : ℕ) (index : SchainIndex) (shard : LevelDB) :
    LevelDB :=
  (shard.insert (createCounterKey version blockId) (decimalText count)).insert
    (createKey version [blockId, index]) value

def writeByteArrayToSetUnsafe (value : Bytes) (blockId : ℕ) (index : SchainIndex) :
    EStateM String CacheLevelDB (Option (OrderedMap SchainIndex Bytes)) := do
  checkArgument (decide (0 < index ∧ index ≤ totalSigners)) "_index > 0 && _index <= totalSigners"
  let entryKey := createKey version [blockId, index]
  checkState (!entryKey.isEmpty) "entryKey != \"\""
  let s ← get
  if s.keyExists entryKey then return none
  match s.findCounter version blockId with
  | none => return none
  | some (count, age) =>
    let s := s.update age (setBatch version (count + 1) value blockId index)
    set s
    if count + 1 != getRequiredSigners totalSigners then return none
    let enoughSet := s.readSetUnsafe version totalSigners blockId
    checkState (enoughSet.size == getRequiredSigners totalSigners)
      "enoughSet->size() == requiredSigners"
    return some enoughSet

def writeByteArrayToSet (full : Bool) (value : Bytes) (blockId : ℕ) (index : SchainIndex) :
    EStateM String CacheLevelDB (Option (OrderedMap SchainIndex Bytes)) := do
  modify fun s => s.rotateDBsIfNeeded full
  writeByteArrayToSetUnsafe version totalSigners value blockId index

end Code

end CacheLevelDB

/-! ### What was stored -/

/-- The calls for a block since the first one, as long as the database that was the newest
then is open. -/
structure Epoch where
  /-- The rotations since the first call. -/
  age : ℕ
  /-- The value of the first call for each index, in the order of the calls. -/
  stored : List (SchainIndex × Bytes)
  /-- The calls that returned a set, by their index. -/
  returned : List (SchainIndex × OrderedMap SchainIndex Bytes)

abbrev Epochs := ℕ → Option Epoch

namespace Epochs

def current (m : Epochs) (blockId : ℕ) : Epoch := (m blockId).getD ⟨0, [], []⟩

def rotateIf (m : Epochs) (full : Bool) : Epochs :=
  if full then fun b =>
    ((m b).map fun e => {e with age := e.age + 1}).filter fun e => e.age < LEVELDB_SHARDS
  else m

def add (m : Epochs) (blockId : ℕ) (index : SchainIndex) (value : Bytes)
    (result : Option (OrderedMap SchainIndex Bytes)) : Epochs :=
  let e := m.current blockId
  Function.update m blockId (some
    { age := e.age
      stored := if (e.stored.lookup index).isSome then e.stored else e.stored ++ [(index, value)]
      returned := e.returned ++ (result.map fun set => (index, set)).toList })

end Epochs

inductive SetEvent where
  | write (full : Bool) (value : Bytes) (blockId : ℕ) (index : SchainIndex)
  | rotate
  | reopen
deriving DecidableEq, Repr

/-- A value that is not empty, of one of the signers. -/
def SetEvent.Admissible (totalSigners : ℕ) : SetEvent → Prop
  | .write _ value _ index => value ≠ [] ∧ 1 ≤ index ∧ index ≤ totalSigners
  | .rotate | .reopen => True

instance (totalSigners : ℕ) : DecidablePred (SetEvent.Admissible totalSigners)
  | .write _ _ _ _ => inferInstanceAs (Decidable (_ ∧ _))
  | .rotate | .reopen => inferInstanceAs (Decidable True)

structure SetState where
  db : CacheLevelDB
  epochs : Epochs

/-- A call that throws is not a step. -/
def setStore (version : Bytes) (totalSigners : ℕ) : Machine SetState SetEvent where
  initial := ⟨.make ∅, fun _ => none⟩
  step
    | .rotate, s => some ⟨s.db.rotateDBsIfNeeded true, s.epochs.rotateIf true⟩
    | .reopen, s => some ⟨.make s.db.directories, s.epochs⟩
    | .write full value blockId index, s =>
      match (CacheLevelDB.writeByteArrayToSet version totalSigners full value blockId index).run
        s.db with
      | .ok result db => some ⟨db, (s.epochs.rotateIf full).add blockId index value result⟩
      | .error _ _ => none

/-! ### Where a key is -/

section Placed
variable {s : CacheLevelDB} {key : Bytes} {x : Option (Bytes × ℕ)} {change : LevelDB → LevelDB}
  {age : ℕ}

/-- The key is in the open database of this age, with this value, and in no other. -/
def Placed (s : CacheLevelDB) (key : Bytes) (x : Option (Bytes × ℕ)) : Prop :=
  ∀ age < LEVELDB_SHARDS, (s.db age).lookup key = (x.filter fun e => e.2 = age).map Prod.fst

theorem Placed.locate (h : Placed s key x) (hage : ∀ e ∈ x, e.2 < LEVELDB_SHARDS) :
    locate key s.newestFirst = x := by
  have h0 := h 0 (by decide)
  have h1 := h 1 (by decide)
  have h2 := h 2 (by decide)
  have h3 := h 3 (by decide)
  cases x with
  | none => simp_all [newestFirst_eq, Library.locate]
  | some e =>
    obtain ⟨value, age⟩ := e
    have hlt : age < 4 := hage _ rfl
    rw [newestFirst_eq]
    obtain rfl | rfl | rfl | rfl : age = 0 ∨ age = 1 ∨ age = 2 ∨ age = 3 := by omega
    all_goals simp_all [Library.locate, Option.filter_some]

theorem placed_make (key : Bytes) : Placed (.make ∅) key none := by
  intro age hage
  have hlt : age < 4 := hage
  match age with
  | 0 | 1 | 2 | 3 => rfl

theorem Placed.rotate (h : Placed s key x) (hs : s.Opened) :
    Placed (s.rotateDBsIfNeeded true) key
      ((x.map fun e => (e.1, e.2 + 1)).filter fun e => e.2 < LEVELDB_SHARDS) := by
  intro age hage
  rw [db_rotate hs hage]
  cases age with
  | zero => cases x <;> simp [Option.filter_some, apply_ite]
  | succ age =>
    rw [if_neg (by omega), Nat.add_sub_cancel, h age (by omega)]
    cases x with
    | none => rfl
    | some e =>
      by_cases he : e.2 = age
      · simp [Option.filter_some, he, hage]
      · by_cases hlt : e.2 + 1 < LEVELDB_SHARDS <;> simp [Option.filter_some, he, hlt]

theorem Placed.write (h : Placed s key x) (hs : s.Opened) (hage : age < LEVELDB_SHARDS)
    (hx : ∀ e ∈ x, e.2 = age) {value : Bytes}
    (hchange : (change (s.db age)).lookup key = some value) :
    Placed (s.update age change) key (some (value, age)) := by
  intro age' hage'
  rw [db_update hs hage hage']
  by_cases heq : age' = age
  · rw [if_pos heq, hchange]
    simp [Option.filter_some, heq]
  · rw [if_neg heq, h age' hage']
    cases x with
    | none => simp [Option.filter_some, Ne.symm heq]
    | some e =>
      have he := hx e rfl
      simp [Option.filter_some, he, Ne.symm heq]

/-- A write to a database that does not touch the key. -/
theorem Placed.frame (h : Placed s key x) (hs : s.Opened) (hage : age < LEVELDB_SHARDS)
    (hchange : (change (s.db age)).lookup key = (s.db age).lookup key) :
    Placed (s.update age change) key x := by
  intro age' hage'
  rw [db_update hs hage hage']
  split_ifs with heq
  · rw [hchange, ← heq, h age' hage']
  · exact h age' hage'

/-- What is not found is in no open database. -/
theorem placed_of_find_eq_none (h : s.find key = none) : Placed s key none := by
  intro age hage
  rw [CacheLevelDB.find, List.findSome?_eq_none_iff] at h
  exact h _ (List.mem_map_of_mem (List.mem_range.mpr hage))

/-- A value that is written where there was none is found. -/
theorem find_update_of_find_eq_none (h : s.find key = none) (hs : s.Opened)
    (hage : age < LEVELDB_SHARDS) {value : Bytes}
    (hchange : (change (s.db age)).lookup key = some value) :
    (s.update age change).find key = some value := by
  have hplaced := (placed_of_find_eq_none h).write hs hage nofun hchange
  rw [CacheLevelDB.find, findSome?_lookup, hplaced.locate fun e he => Option.some.inj he ▸ hage]
  rfl

end Placed

/-! ### The set of a block -/

namespace Epoch

def counter (e : Epoch) : Bytes × ℕ := (decimalText e.stored.length, e.age)

def entry (e : Epoch) (index : SchainIndex) : Option (Bytes × ℕ) :=
  (e.stored.lookup index).map fun value => (value, e.age)

/-- The call with the `requiredSigners`-th index, and no other, returned a set: the values
stored by then. -/
def Completed (requiredSigners : ℕ) (e : Epoch) : Prop :=
  match e.stored[requiredSigners - 1]? with
  | none => e.returned = []
  | some last => ∃ set, e.returned = [(last.1, set)] ∧
      set.entries.Perm (e.stored.take requiredSigners)

structure WellFormed (totalSigners : ℕ) (e : Epoch) : Prop where
  retained : e.age < LEVELDB_SHARDS
  nodup : (e.stored.map Prod.fst).Nodup
  signers : ∀ entry ∈ e.stored, 1 ≤ entry.1 ∧ entry.1 ≤ totalSigners
  values : ∀ entry ∈ e.stored, entry.2 ≠ []

structure Valid (totalSigners : ℕ) (e : Epoch) : Prop extends e.WellFormed totalSigners where
  completed : e.Completed (getRequiredSigners totalSigners)

end Epoch

section SetStore
variable {version value : Bytes} {totalSigners : ℕ} {s : CacheLevelDB} {m : Epochs} {b : ℕ}
  {index : SchainIndex} {e : Epoch} {o : Option Epoch}
  {result : Option (OrderedMap SchainIndex Bytes)}

/-- Everything that was stored for a block is in the database of its first call, and the
counter with it. -/
structure Mirrors (version : Bytes) (s : CacheLevelDB) (b : ℕ) (o : Option Epoch) : Prop where
  counter : Placed s (createCounterKey version b) (o.map Epoch.counter)
  entry : ∀ index, Placed s (createKey version [b, index]) (o.bind (Epoch.entry · index))

section Mirrors
variable {o : Option Epoch} (h : Mirrors version s b o) (hage : ∀ e ∈ o, e.age < LEVELDB_SHARDS)
include h hage

theorem Mirrors.locate_counter :
    locate (createCounterKey version b) s.newestFirst = o.map Epoch.counter := by
  refine h.counter.locate fun placed hplaced => ?_
  obtain ⟨e, he, rfl⟩ := Option.map_eq_some_iff.mp hplaced
  exact hage e he

theorem Mirrors.locate_entry (index : SchainIndex) :
    locate (createKey version [b, index]) s.newestFirst = o.bind (Epoch.entry · index) := by
  refine (h.entry index).locate fun placed hplaced => ?_
  obtain ⟨e, he, hentry⟩ := Option.bind_eq_some_iff.mp hplaced
  obtain ⟨value, -, rfl⟩ := Option.map_eq_some_iff.mp hentry
  exact hage e he

theorem Mirrors.keyExists (index : SchainIndex) : s.keyExists (createKey version [b, index]) =
    (o.bind fun e => e.stored.lookup index).isSome := by
  rw [keyExists_eq, h.locate_entry hage]
  cases o with
  | none => rfl
  | some e => simp [Epoch.entry]

theorem Mirrors.readString (index : SchainIndex) : s.readString (createKey version [b, index]) =
    (o.bind fun e => e.stored.lookup index).getD [] := by
  rw [readString_eq, h.locate_entry hage]
  cases o with
  | none => rfl
  | some e => simp [Epoch.entry, Function.comp_def]

end Mirrors

/-! ### Reading a set -/

theorem readSetFrom_eq_collect (s : CacheLevelDB) (b : ℕ) (indexes : List SchainIndex)
    (set : OrderedMap SchainIndex Bytes) :
    s.readSetFrom version totalSigners b indexes set =
      collect (fun i => some (s.readString (createKey version [b, i])) |>.filter (!·.isEmpty))
        (getRequiredSigners totalSigners) indexes set := by
  induction indexes generalizing set with
  | nil => rfl
  | cons i rest ih =>
    rw [CacheLevelDB.readSetFrom, collect]
    cases hempty : (s.readString (createKey version [b, i])).isEmpty <;>
      simp [Option.filter_some, hempty, ih]

/-! ### Writing to a set -/

section Batch
variable (count : ℕ) (value : Bytes) (index : SchainIndex) (shard : LevelDB)

theorem lookup_setBatch_counter :
    (CacheLevelDB.setBatch version count value b index shard).lookup (createCounterKey version b) =
      some (decimalText count) := by
  rw [CacheLevelDB.setBatch, AList.lookup_insert_ne (createKey_ne_createCounterKey _ _ _).symm,
    AList.lookup_insert]

theorem lookup_setBatch_entry :
    (CacheLevelDB.setBatch version count value b index shard).lookup
      (createKey version [b, index]) = some value :=
  AList.lookup_insert _

theorem lookup_setBatch_other_counter {b' : ℕ} (h : b' ≠ b) :
    (CacheLevelDB.setBatch version count value b index shard).lookup (createCounterKey version b') =
      shard.lookup (createCounterKey version b') := by
  rw [CacheLevelDB.setBatch, AList.lookup_insert_ne (createKey_ne_createCounterKey _ _ _).symm,
    AList.lookup_insert_ne fun heq => h (createCounterKey_injective heq)]

theorem lookup_setBatch_other_entry {b' : ℕ} {index' : SchainIndex}
    (h : [b', index'] ≠ [b, index]) :
    (CacheLevelDB.setBatch version count value b index shard).lookup
      (createKey version [b', index']) = shard.lookup (createKey version [b', index']) := by
  rw [CacheLevelDB.setBatch, AList.lookup_insert_ne fun heq => h (createKey_injective heq),
    AList.lookup_insert_ne (createKey_ne_createCounterKey _ _ _)]

variable {value index} in
/-- Where there was no entry, this one is found. -/
theorem find_setBatch (hs : s.Opened) {age : ℕ} (hage : age < LEVELDB_SHARDS)
    (hnone : s.find (createKey version [b, index]) = none) (b' : ℕ) :
    (s.update age (CacheLevelDB.setBatch version count value b index)).find
        (createKey version [b', index]) =
      if b' = b then some value else s.find (createKey version [b', index]) := by
  split_ifs with hb
  · subst hb
    exact find_update_of_find_eq_none hnone hs hage (lookup_setBatch_entry ..)
  · exact find_update_of_lookup hs hage (lookup_setBatch_other_entry _ _ _ _ (by simpa using hb))

end Batch

def Epoch.append (e : Epoch) (index : SchainIndex) (value : Bytes)
    (result : Option (OrderedMap SchainIndex Bytes)) : Epoch :=
  { e with
    stored := e.stored ++ [(index, value)]
    returned := e.returned ++ (result.map fun set => (index, set)).toList }

theorem Mirrors.write (h : Mirrors version s b o) (hs : s.Opened) (he : o.getD ⟨0, [], []⟩ = e)
    (hage : e.age < LEVELDB_SHARDS) (hindex : e.stored.lookup index = none) (value : Bytes)
    (result : Option (OrderedMap SchainIndex Bytes)) :
    Mirrors version
      (s.update e.age (CacheLevelDB.setBatch version (e.stored.length + 1) value b index)) b
      (some (e.append index value result)) := by
  constructor
  · have hcounter := h.counter.write hs hage (fun placed hplaced => ?_)
      (lookup_setBatch_counter (e.stored.length + 1) value index (s.db e.age))
    · simpa [Epoch.counter, Epoch.append] using hcounter
    · obtain ⟨e', rfl, rfl⟩ := Option.map_eq_some_iff.mp hplaced
      cases he
      rfl
  · intro index'
    by_cases hsame : index' = index
    · subst hsame
      have hentry := (h.entry index').write hs hage (fun placed hplaced => ?_)
        (lookup_setBatch_entry (e.stored.length + 1) value index' (s.db e.age))
      · simpa [Epoch.entry, Epoch.append, List.lookup_append, hindex] using hentry
      · obtain ⟨e', rfl, hplaced⟩ := Option.bind_eq_some_iff.mp hplaced
        cases he
        obtain ⟨_, -, rfl⟩ := Option.map_eq_some_iff.mp hplaced
        rfl
    · have hother : [b, index'] ≠ [b, index] := by simpa using hsame
      have hentry := (h.entry index').frame hs hage
        (lookup_setBatch_other_entry (e.stored.length + 1) value index (s.db e.age) hother)
      have hsingle : (index' == index) = false := by simpa using hsame
      have hbefore : o.bind (Epoch.entry · index') = e.entry index' := by
        subst he
        cases o <;> rfl
      rw [hbefore] at hentry
      simpa [Epoch.entry, Epoch.append, List.lookup_append, List.lookup_cons, hsingle] using hentry

theorem Mirrors.frame {b' : ℕ} (h : Mirrors version s b' o) (hs : s.Opened) (hb : b' ≠ b) {age : ℕ}
    (hage : age < LEVELDB_SHARDS) (count : ℕ) (value : Bytes) (index : SchainIndex) :
    Mirrors version (s.update age (CacheLevelDB.setBatch version count value b index)) b' o := by
  constructor
  · exact h.counter.frame hs hage (lookup_setBatch_other_counter count value index _ hb)
  · intro index'
    refine (h.entry index').frame hs hage (lookup_setBatch_other_entry count value index _ ?_)
    simp [hb]

/-- The set is complete with the `requiredSigners`-th value, and is not returned again. -/
theorem Epoch.Completed.append {requiredSigners : ℕ} (h : e.Completed requiredSigners)
    (hrequired : 0 < requiredSigners) (index : SchainIndex) (value : Bytes)
    (hnone : e.stored.length + 1 ≠ requiredSigners → result = none)
    (hsome : e.stored.length + 1 = requiredSigners → ∃ set, result = some set ∧
      set.entries.Perm (e.stored ++ [(index, value)])) :
    (e.append index value result).Completed requiredSigners := by
  unfold Epoch.Completed at h ⊢
  show match (e.stored ++ [(index, value)])[requiredSigners - 1]? with | none => _ | some _ => _
  rcases lt_trichotomy (e.stored.length + 1) requiredSigners with hlt | heq | hgt
  · rw [List.getElem?_eq_none (by omega)] at h
    rw [List.getElem?_eq_none (by simp; omega), hnone hlt.ne]
    simpa [Epoch.append] using h
  · obtain ⟨set, rfl, hset⟩ := hsome heq
    rw [List.getElem?_eq_none (by omega)] at h
    rw [← heq, Nat.add_sub_cancel, List.getElem?_concat_length]
    refine ⟨set, by simp [Epoch.append, h], ?_⟩
    rwa [List.take_of_length_le (by simp [Epoch.append])]
  · have hinside : requiredSigners - 1 < e.stored.length := by omega
    rw [List.getElem?_append_left hinside, hnone hgt.ne']
    rw [List.getElem?_eq_getElem hinside] at h ⊢
    obtain ⟨set, hreturned, hset⟩ := h
    refine ⟨set, by simp [Epoch.append, hreturned], ?_⟩
    rwa [Epoch.append, List.take_append_of_le_length (by omega)]

/-! ### Whole runs -/

/-- What the database has of the sets. -/
structure Kept (version : Bytes) (totalSigners : ℕ) (s : CacheLevelDB) (m : Epochs) : Prop where
  opened : s.Opened
  mirrors : ∀ b, Mirrors version s b (m b)
  valid : ∀ b, ∀ e ∈ m b, e.Valid totalSigners

theorem Epoch.WellFormed.length_le (h : e.WellFormed totalSigners) :
    e.stored.length ≤ totalSigners := by
  have hsubset : e.stored.map Prod.fst ⊆ List.range' 1 totalSigners := by
    intro i hi
    obtain ⟨entry, hentry, rfl⟩ := List.mem_map.mp hi
    obtain ⟨hpos, hle⟩ := h.signers entry hentry
    exact List.mem_range'_1.mpr ⟨hpos, by rw [Nat.add_comm]; exact Nat.lt_succ_of_le hle⟩
  simpa using (List.subperm_of_subset h.nodup hsubset).length_le

namespace Kept
variable (h : Kept version totalSigners s m)
include h

theorem retained (b : ℕ) : ∀ e ∈ m b, e.age < LEVELDB_SHARDS :=
  fun e he => (h.valid b e he).retained

theorem valid_current (b : ℕ) : (m.current b).Valid totalSigners := by
  unfold Epochs.current
  cases hb : m b with
  | none => exact ⟨⟨by decide, List.nodup_nil, nofun, nofun⟩, rfl⟩
  | some e => exact h.valid b e hb

theorem findCounter (hn : totalSigners < 2 ^ 64) (b : ℕ) :
    s.findCounter version b = some ((m.current b).stored.length, (m.current b).age) := by
  unfold CacheLevelDB.findCounter Epochs.current
  rw [(h.mirrors b).locate_counter (h.retained b)]
  cases hb : m b with
  | none => rfl
  | some e =>
    have hlength := (h.valid b e hb).length_le
    simp [Epoch.counter, stoull_decimalText (hlength.trans_lt hn)]

theorem keyExists (b : ℕ) (index : SchainIndex) : s.keyExists (createKey version [b, index]) =
    ((m.current b).stored.lookup index).isSome := by
  rw [(h.mirrors b).keyExists (h.retained b)]
  unfold Epochs.current
  cases m b <;> rfl

end Kept

/-- What a call for one of the signers does: the checks of the arguments pass. -/
theorem run_writeByteArrayToSetUnsafe (hindex : 1 ≤ index ∧ index ≤ totalSigners) (value : Bytes)
    (b : ℕ) (s : CacheLevelDB) :
    (CacheLevelDB.writeByteArrayToSetUnsafe version totalSigners value b index).run s =
      if s.keyExists (createKey version [b, index]) then .ok none s
      else match s.findCounter version b with
        | none => .ok none s
        | some (count, age) =>
          let s := s.update age (CacheLevelDB.setBatch version (count + 1) value b index)
          if count + 1 != getRequiredSigners totalSigners then .ok none s
          else (do
            checkState ((s.readSetUnsafe version totalSigners b).size ==
              getRequiredSigners totalSigners) "enoughSet->size() == requiredSigners"
            return some (s.readSetUnsafe version totalSigners b) :
              EStateM String CacheLevelDB _).run s := by
  have hargument : decide (0 < index ∧ index ≤ totalSigners) = true := decide_eq_true hindex
  have hkey : (!(createKey version [b, index]).isEmpty) = true := by simp [createKey]
  unfold CacheLevelDB.writeByteArrayToSetUnsafe
  dsimp only
  rw [hargument, hkey]
  show EStateM.run (if s.keyExists (createKey version [b, index]) = true then
    (pure none : EStateM String CacheLevelDB _) else _) s = _
  cases s.keyExists (createKey version [b, index]) with
  | true => rfl
  | false =>
    cases s.findCounter version b with
    | none => rfl
    | some found =>
      simp only [Bool.false_eq_true, if_false]
      cases hcount : found.1 + 1 != getRequiredSigners totalSigners <;> rfl

theorem findCounter_lt {count age : ℕ} (h : s.findCounter version b = some (count, age)) :
    age < LEVELDB_SHARDS := by
  unfold CacheLevelDB.findCounter at h
  split at h
  next result age' hlocate =>
    obtain ⟨count', -, hsome⟩ := Option.map_eq_some_iff.mp h
    cases hsome
    exact locate_lt hlocate
  next =>
    cases h
    decide

/-- The database after a call for one of the signers. -/
theorem finalState_writeByteArrayToSet_eq (hindex : 1 ≤ index ∧ index ≤ totalSigners) (full : Bool)
    (value : Bytes) (b : ℕ) (s : CacheLevelDB) :
    finalState (CacheLevelDB.writeByteArrayToSet version totalSigners full value b index) s =
      let t := s.rotateDBsIfNeeded full
      if t.keyExists (createKey version [b, index]) then t
      else match t.findCounter version b with
        | none => t
        | some (count, age) =>
          t.update age (CacheLevelDB.setBatch version (count + 1) value b index) := by
  have hrotate :
      finalState (CacheLevelDB.writeByteArrayToSet version totalSigners full value b index)
      s = finalState (CacheLevelDB.writeByteArrayToSetUnsafe version totalSigners value b index)
        (s.rotateDBsIfNeeded full) := rfl
  rw [hrotate]
  generalize s.rotateDBsIfNeeded full = t
  unfold finalState
  rw [run_writeByteArrayToSetUnsafe hindex]
  dsimp only
  split_ifs
  · rfl
  · cases t.findCounter version b with
    | none => rfl
    | some found =>
      dsimp only
      split_ifs
      · rfl
      · generalize t.update found.2 _ = u
        cases (u.readSetUnsafe version totalSigners b).size == getRequiredSigners totalSigners
          <;> rfl

/-- A call for one of the signers leaves the database as it is, rotated, or writes the value,
which was not there. -/
theorem finalState_writeByteArrayToSet (hindex : 1 ≤ index ∧ index ≤ totalSigners) (full : Bool)
    (value : Bytes) (b : ℕ) (s : CacheLevelDB) :
    finalState (CacheLevelDB.writeByteArrayToSet version totalSigners full value b index) s =
        s.rotateDBsIfNeeded full ∨
      (s.rotateDBsIfNeeded full).find (createKey version [b, index]) = none ∧
        ∃ count, ∃ age < LEVELDB_SHARDS,
          finalState (CacheLevelDB.writeByteArrayToSet version totalSigners full value b index) s =
            (s.rotateDBsIfNeeded full).update age
              (CacheLevelDB.setBatch version count value b index) := by
  rw [finalState_writeByteArrayToSet_eq hindex]
  dsimp only
  split_ifs with hexists
  · exact .inl rfl
  · cases hcounter : (s.rotateDBsIfNeeded full).findCounter version b with
    | none => exact .inl rfl
    | some found =>
      rw [keyExists_eq_find, Option.not_isSome_iff_eq_none] at hexists
      exact .inr ⟨hexists, found.1 + 1, found.2, findCounter_lt hcounter, rfl⟩

theorem lookup_eq_none_iff_notMem {stored : List (SchainIndex × Bytes)}
    (hnodup : (stored.map Prod.fst).Nodup) :
    stored.lookup index = none ↔ index ∉ stored.map Prod.fst := by
  rw [Option.eq_none_iff_forall_ne_some]
  simp [lookup_eq_some_iff_mem hnodup]

theorem Epoch.WellFormed.append (h : e.WellFormed totalSigners)
    (hindex : 1 ≤ index ∧ index ≤ totalSigners) (hnew : e.stored.lookup index = none)
    (hvalue : value ≠ []) (result : Option (OrderedMap SchainIndex Bytes)) :
    (e.append index value result).WellFormed totalSigners where
  retained := h.retained
  nodup := by
    rw [Epoch.append, List.map_append]
    refine List.nodup_append.mpr ⟨h.nodup, List.nodup_singleton _, fun i hi j hj heq => ?_⟩
    rw [heq, List.mem_singleton.mp hj] at hi
    exact (lookup_eq_none_iff_notMem h.nodup).mp hnew hi
  signers := by
    intro entry hentry
    rcases List.mem_append.mp hentry with hentry | hentry
    · exact h.signers entry hentry
    · rw [List.mem_singleton.mp hentry]
      exact hindex
  values := by
    intro entry hentry
    rcases List.mem_append.mp hentry with hentry | hentry
    · exact h.values entry hentry
    · rw [List.mem_singleton.mp hentry]
      exact hvalue

theorem Mirrors.readSet_perm (h : Mirrors version s b (some e)) (he : e.WellFormed totalSigners)
    (hlength : e.stored.length = getRequiredSigners totalSigners) :
    (s.readSetUnsafe version totalSigners b).entries.Perm e.stored := by
  rw [CacheLevelDB.readSetUnsafe, readSetFrom_eq_collect]
  refine collect_perm he.nodup (fun i => ?_) hlength he.signers
  rw [h.readString (fun e' he' => Option.some.inj he' ▸ he.retained) i]
  show (some ((e.stored.lookup i).getD [])).filter _ = _
  cases hlookup : e.stored.lookup i with
  | none => rfl
  | some value =>
    have hvalue := he.values _ ((lookup_eq_some_iff_mem he.nodup).mp hlookup)
    simp [Option.filter_some, hvalue]

theorem Kept.append (h : Kept version totalSigners s m) (hindex : 1 ≤ index ∧ index ≤ totalSigners)
    (hvalue : value ≠ []) (hnew : (m.current b).stored.lookup index = none)
    (hcompleted : ((m.current b).append index value result).Completed
      (getRequiredSigners totalSigners)) :
    Kept version totalSigners
      (s.update (m.current b).age
        (CacheLevelDB.setBatch version ((m.current b).stored.length + 1) value b index))
      (m.add b index value result) := by
  have hcurrent := h.valid_current b
  have hadd : m.add b index value result =
      Function.update m b (some ((m.current b).append index value result)) := by
    simp [Epochs.add, Epoch.append, hnew]
  rw [hadd]
  refine ⟨opened_update h.opened _ _, fun b' => ?_, fun b' e he => ?_⟩
  · by_cases hb : b' = b
    · subst hb
      rw [Function.update_self]
      exact (h.mirrors b').write h.opened rfl hcurrent.retained hnew value result
    · rw [Function.update_of_ne hb]
      exact (h.mirrors b').frame h.opened hb hcurrent.retained _ value index
  · by_cases hb : b' = b
    · subst hb
      rw [Function.update_self] at he
      cases he
      exact ⟨hcurrent.toWellFormed.append hindex hnew hvalue result, hcompleted⟩
    · rw [Function.update_of_ne hb] at he
      exact h.valid b' e he

/-- The step lemma of a call: it returns, and the database keeps what was stored. -/
theorem Kept.write (h : Kept version totalSigners s m) (hn : totalSigners < 2 ^ 64)
    (hindex : 1 ≤ index ∧ index ≤ totalSigners) (hvalue : value ≠ []) (b : ℕ) :
    ∃ result s', (CacheLevelDB.writeByteArrayToSetUnsafe version totalSigners value b index).run s =
      .ok result s' ∧ Kept version totalSigners s' (m.add b index value result) := by
  have hcurrent := h.valid_current b
  have hrequired := getRequiredSigners_pos (hindex.1.trans hindex.2)
  rw [run_writeByteArrayToSetUnsafe hindex, h.keyExists, h.findCounter hn]
  cases hlookup : (m.current b).stored.lookup index with
  | some old =>
    have hsame : m.add b index value none = m := by
      have hm : m b = some (m.current b) := by
        unfold Epochs.current at hlookup ⊢
        cases hb : m b with
        | none => simp [hb] at hlookup
        | some e => rfl
      simp [Epochs.add, hlookup, ← hm]
    exact ⟨none, s, rfl, hsame.symm ▸ h⟩
  | none =>
    simp only [Option.isSome_none, Bool.false_eq_true, if_false]
    by_cases hcount : (m.current b).stored.length + 1 = getRequiredSigners totalSigners
    · rw [if_neg (by simp [hcount])]
      have hwritten := (h.mirrors b).write h.opened (rfl : _ = m.current b) hcurrent.retained
        hlookup value none
      have hlength : ((m.current b).append index value none).stored.length =
        getRequiredSigners totalSigners := by simpa [Epoch.append] using hcount
      have hset := hwritten.readSet_perm
        (hcurrent.toWellFormed.append hindex hlookup hvalue none) hlength
      refine ⟨some _, _, run_checkState_bind_of_true ?_ _ _ _, h.append hindex hvalue hlookup ?_⟩
      · exact beq_iff_eq.mpr (hset.length_eq.trans hlength)
      · exact hcurrent.completed.append hrequired index value (fun hne => absurd hcount hne)
          fun _ => ⟨_, rfl, hset⟩
    · rw [if_pos (by simpa using hcount)]
      refine ⟨none, _, rfl, h.append hindex hvalue hlookup ?_⟩
      exact hcurrent.completed.append hrequired index value (fun _ => rfl)
        fun heq => absurd heq hcount

theorem Mirrors.rotate (h : Mirrors version s b o) (hs : s.Opened) :
    Mirrors version (s.rotateDBsIfNeeded true) b
      ((o.map fun e => {e with age := e.age + 1}).filter fun e => e.age < LEVELDB_SHARDS) := by
  cases o with
  | none => exact ⟨h.counter.rotate hs, fun index => (h.entry index).rotate hs⟩
  | some e =>
    constructor
    · have hcounter := h.counter.rotate hs
      by_cases hlt : e.age + 1 < LEVELDB_SHARDS <;>
        simpa [Epoch.counter, Option.filter_some, hlt] using hcounter
    · intro index
      have hentry := (h.entry index).rotate hs
      by_cases hlt : e.age + 1 < LEVELDB_SHARDS <;> cases hlookup : e.stored.lookup index <;>
        simpa [Epoch.entry, Option.filter_some, hlt, hlookup] using hentry

theorem Kept.rotate (h : Kept version totalSigners s m) (full : Bool) :
    Kept version totalSigners (s.rotateDBsIfNeeded full) (m.rotateIf full) := by
  cases full with
  | false => exact h
  | true =>
    refine ⟨opened_rotate h.opened, fun b => (h.mirrors b).rotate h.opened, ?_⟩
    intro b e he
    obtain ⟨hmap, hretained⟩ := Option.filter_eq_some_iff.mp he
    obtain ⟨e', he', rfl⟩ := Option.map_eq_some_iff.mp hmap
    have hvalid := h.valid b e' he'
    exact ⟨⟨of_decide_eq_true hretained, hvalid.nodup, hvalid.signers, hvalid.values⟩,
      hvalid.completed⟩

theorem kept_initial : Kept version totalSigners (.make ∅) fun _ => none :=
  ⟨opened_make ∅, fun _ => ⟨placed_make _, fun _ => placed_make _⟩, nofun⟩

theorem Kept.step {s : SetState} (h : Kept version totalSigners s.db s.epochs)
    (hn : totalSigners < 2 ^ 64) {event : SetEvent} (hevent : event.Admissible totalSigners) :
    ∃ s', (setStore version totalSigners).step event s = some s' ∧
      Kept version totalSigners s'.db s'.epochs := by
  cases event with
  | rotate => exact ⟨_, rfl, h.rotate true⟩
  | reopen =>
    refine ⟨_, rfl, ?_⟩
    show Kept version totalSigners (.make s.db.directories) s.epochs
    rwa [make_of_opened h.opened]
  | write full value b index =>
    obtain ⟨result, db, hrun, hkept⟩ := (h.rotate full).write hn hevent.2 hevent.1 b
    have hwhole :
        (CacheLevelDB.writeByteArrayToSet version totalSigners full value b index).run s.db =
      .ok result db := hrun
    refine ⟨⟨db, (s.epochs.rotateIf full).add b index value result⟩, ?_, hkept⟩
    simp only [setStore, hwhole]

/-- What is expected of a block while the database of its counter is open. -/
structure KeptSet (version : Bytes) (totalSigners : ℕ) (s : CacheLevelDB) (b : ℕ) (e : Epoch) :
    Prop where
  retained : e.age < LEVELDB_SHARDS
  /-- No index is stored twice. -/
  distinct : (e.stored.map Prod.fst).Nodup
  /-- The counter is in one database only, and says how many indexes are stored. -/
  counter : ∀ age < LEVELDB_SHARDS, (s.db age).lookup (createCounterKey version b) =
    if age = e.age then some (decimalText e.stored.length) else none
  count : s.readCount version totalSigners b = e.stored.length
  enough : s.isEnough version totalSigners b =
    decide (getRequiredSigners totalSigners ≤ e.stored.length)
  /-- The entries are in the database of the counter, and in no other. -/
  entries : ∀ index, ∀ age < LEVELDB_SHARDS, (s.db age).lookup (createKey version [b, index]) =
    if age = e.age then e.stored.lookup index else none
  completed : e.Completed (getRequiredSigners totalSigners)

theorem Kept.readCount (h : Kept version totalSigners s m) (hn : totalSigners < 2 ^ 64)
    (he : m b = some e) : s.readCount version totalSigners b = e.stored.length := by
  have hlength := (h.valid b e he).length_le
  have hcount : s.readString (createCounterKey version b) = decimalText e.stored.length := by
    rw [readString_eq, (h.mirrors b).locate_counter (h.retained b), he]
    rfl
  simp [CacheLevelDB.readCount, hcount, decimalText_ne_nil,
    stoull_decimalText (hlength.trans_lt hn), hlength]

theorem Kept.keptSet (h : Kept version totalSigners s m) (hn : totalSigners < 2 ^ 64)
    (he : m b = some e) : KeptSet version totalSigners s b e := by
  have hvalid := h.valid b e he
  have hmirrors := h.mirrors b
  rw [he] at hmirrors
  refine ⟨hvalid.retained, hvalid.nodup, fun age hage => ?_, h.readCount hn he, ?_,
    fun index age hage => ?_, hvalid.completed⟩
  · rw [hmirrors.counter age hage]
    by_cases heq : e.age = age <;> simp [Epoch.counter, Option.filter_some, heq, eq_comm (a := age)]
  · rw [CacheLevelDB.isEnough, h.readCount hn he]
  · rw [hmirrors.entry index age hage]
    cases hlookup : e.stored.lookup index <;>
      by_cases heq : e.age = age <;>
        simp [Epoch.entry, hlookup, Option.filter_some, heq, eq_comm (a := age)]

/-- In every sequence of calls, rotations and reopenings no call throws, and as long as the
database that holds the counter of a block is open: the counter is the number of different
indexes that were stored, the entries are in that database, and the call that stored the
`requiredSigners`-th of them, and no other, returned those stored by then. A block whose
database was removed has nothing. -/
theorem setStore_keeps_sets (version : Bytes) (totalSigners : ℕ) (hn : totalSigners < 2 ^ 64)
    (events : List SetEvent) (hevents : ∀ event ∈ events, event.Admissible totalSigners) :
    ∃ s, (setStore version totalSigners).run events = some s ∧ ∀ b,
      match s.epochs b with
      | some e => KeptSet version totalSigners s.db b e
      | none => ∀ age < LEVELDB_SHARDS,
          (s.db.db age).lookup (createCounterKey version b) = none ∧
          ∀ index, (s.db.db age).lookup (createKey version [b, index]) = none := by
  have hrun : ∀ s : SetState, Kept version totalSigners s.db s.epochs →
      ∃ s', (setStore version totalSigners).runFrom s events = some s' ∧
        Kept version totalSigners s'.db s'.epochs := by
    induction events with
    | nil => exact fun s h => ⟨s, rfl, h⟩
    | cons event rest ih =>
      intro s h
      obtain ⟨s', hstep, hkept⟩ := h.step hn (hevents event List.mem_cons_self)
      obtain ⟨s'', hrest, hkept'⟩ := ih (fun e he => hevents e (List.mem_cons_of_mem _ he)) s' hkept
      exact ⟨s'', by simp [Machine.runFrom, hstep, hrest], hkept'⟩
  obtain ⟨s, hs, hkept⟩ := hrun (setStore version totalSigners).initial kept_initial
  refine ⟨s, hs, fun b => ?_⟩
  cases hb : s.epochs b with
  | some e => exact hkept.keptSet hn hb
  | none =>
    have hmirrors := hkept.mirrors b
    rw [hb] at hmirrors
    exact fun age hage => ⟨hmirrors.counter age hage, fun index => hmirrors.entry index age hage⟩

end SetStore

/-- The values of three of four signers, with a rotation and a restart between them, and one
sent twice. -/
def threeOfFour : List SetEvent :=
  [.write false [1] 7 4, .rotate, .write false [2] 7 2, .reopen, .write true [3] 7 2,
    .write false [4] 7 1, .write false [5] 7 3]

theorem setStore_keeps_threeOfFour :
    (((setStore (textBytes "1.0") 4).run threeOfFour).bind fun s =>
      (s.epochs 7).map fun e => e.returned.map fun r => (r.1, r.2.entries)) =
        some [(1, [(1, [4]), (2, [2]), (4, [1])])] ∧
    ∃ s, (setStore (textBytes "1.0") 4).run threeOfFour = some s ∧ ∀ b,
      match s.epochs b with
      | some e => KeptSet (textBytes "1.0") 4 s.db b e
      | none => ∀ age < LEVELDB_SHARDS,
          (s.db.db age).lookup (createCounterKey (textBytes "1.0") b) = none ∧
          ∀ index, (s.db.db age).lookup (createKey (textBytes "1.0") [b, index]) = none :=
  ⟨by decide +kernel, setStore_keeps_sets _ 4 (by decide) threeOfFour (by decide)⟩

end SkaleConsensus.Db
