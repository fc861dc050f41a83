import Mathlib.Data.List.MinMax
import Mathlib.Order.Nat
import SkaleConsensus.Common
import SkaleConsensus.Library.Decimal
import SkaleConsensus.Library.Generations

/-! The rotating database.

`CacheLevelDB` keeps LevelDB databases in directories `db.i` and has the four with the
highest numbers open. Values are searched in them newest first and written to the newest;
when that is full, a directory with the next number is opened and the oldest are removed.
Nothing but the directories survives a restart.

LevelDB is a map from keys to values. Whether the newest directory is full is an argument
of every call that asks, since it depends on how LevelDB stores its entries. -/
namespace SkaleConsensus.Db
open Library

def LEVELDB_SHARDS : ℕ := 4

/-! ### Keys -/

/-- `createKey`, for a block, for a block and an index, and for a block and two. -/
def createKey (version : Bytes) (parts : List ℕ) : Bytes :=
  version ++ parts.flatMap fun part => 58 :: decimalText part

def createCounterKey (version : Bytes) (blockId : ℕ) : Bytes :=
  version ++ textBytes ":COUNTER:" ++ decimalText blockId

theorem createKey_injective {version : Bytes} {parts parts' : List ℕ}
    (h : createKey version parts = createKey version parts') : parts = parts' :=
  flatMap_separated_injective (fun _ _ => decimalText_injective)
    (fun _ hcolon => absurd (isDigit_of_mem_decimalText hcolon) (by decide))
    (List.append_cancel_left h)

theorem createCounterKey_injective {version : Bytes} {b b' : ℕ}
    (h : createCounterKey version b = createCounterKey version b') : b = b' :=
  decimalText_injective (List.append_cancel_left h)

theorem createKey_ne_createCounterKey (version : Bytes) (parts : List ℕ) (b : ℕ) :
    createKey version parts ≠ createCounterKey version b := by
  intro h
  rw [createCounterKey, List.append_assoc] at h
  have htail := List.append_cancel_left h
  cases parts with
  | nil => exact absurd htail (by simp [textBytes])
  | cons part rest =>
    -- the number behind the colon would begin with a letter
    cases hdigits : decimalText part with
    | nil => exact decimalText_ne_nil part hdigits
    | cons d digits =>
      rw [List.flatMap_cons, hdigits] at htail
      have hd : d = 67 := (List.cons.inj (List.cons.inj htail).2).1
      have hdigit := isDigit_of_mem_decimalText (hdigits ▸ List.mem_cons_self : d ∈ _)
      exact absurd (hd ▸ hdigit) (by decide)

/-! ### Databases -/

/-- One LevelDB database. -/
abbrev LevelDB := Shard Bytes Bytes

/-- The directories that are there, by number. -/
abbrev Directories := Shard ℕ LevelDB

/-- `findMaxMinDBIndex().first`; zero if there is no directory. -/
def findMaxDBIndex (d : Directories) : ℕ := d.keys.foldr max 0

/-- `findMaxMinDBIndex().second`. -/
def findMinDBIndex (d : Directories) : ℕ := d.keys.min?.getD 0

/-- `openDB`: LevelDB creates what is missing. -/
def openDB (d : Directories) (index : ℕ) : Directories :=
  if index ∈ d then d else d.insert index ∅

/-- The loop of `rotateDBsIfNeeded` that removes directories; it ends when there is no
directory left to remove, at the latest after as many rounds as there are directories. -/
def removeOldDBs (highestDBIndex : ℕ) : ℕ → Directories → Directories
  | 0, d => d
  | rounds + 1, d =>
    if findMinDBIndex d + LEVELDB_SHARDS ≤ highestDBIndex then
      if findMinDBIndex d = 0 then d
      else removeOldDBs highestDBIndex rounds (d.erase (findMinDBIndex d))
    else d

/-- The members of `CacheLevelDB` that change. The handles in `db` are those of the
directories from `highestDBIndex - LEVELDB_SHARDS + 1` on. -/
structure CacheLevelDB where
  directories : Directories
  highestDBIndex : ℕ

namespace CacheLevelDB

/-- The constructor. -/
def make (d : Directories) : CacheLevelDB :=
  let highestDBIndex := max (findMaxDBIndex d) LEVELDB_SHARDS
  { directories :=
      (List.range' (highestDBIndex - LEVELDB_SHARDS + 1) LEVELDB_SHARDS).foldl openDB d
    highestDBIndex }

/-- `db.at( LEVELDB_SHARDS - 1 - age )`. -/
def db (s : CacheLevelDB) (age : ℕ) : LevelDB :=
  (s.directories.lookup (s.highestDBIndex - age)).getD ∅

/-- The open databases as they are searched. -/
def newestFirst (s : CacheLevelDB) : List LevelDB := (List.range LEVELDB_SHARDS).map s.db

/-- A change of one of the databases. -/
def update (s : CacheLevelDB) (age : ℕ) (change : LevelDB → LevelDB) : CacheLevelDB :=
  {s with directories := s.directories.insert (s.highestDBIndex - age) (change (s.db age))}

/-- `db.back()->Put`. -/
def put (s : CacheLevelDB) (key value : Bytes) : CacheLevelDB := s.update 0 (·.insert key value)

def rotateDBsIfNeeded (full : Bool) (s : CacheLevelDB) : CacheLevelDB :=
  if full then
    let d := openDB s.directories (s.highestDBIndex + 1)
    { directories := removeOldDBs (s.highestDBIndex + 1) d.keys.length d
      highestDBIndex := s.highestDBIndex + 1 }
  else s

/-- `readString`; an empty text if the key is not found. -/
def readString (s : CacheLevelDB) (key : Bytes) : Bytes :=
  (s.newestFirst.findSome? (AList.lookup key)).getD []

def keyExists (s : CacheLevelDB) (key : Bytes) : Bool :=
  s.newestFirst.any fun shard => (shard.lookup key).isSome

def writeString (full : Bool) (key value : Bytes) (overWrite : Bool) (s : CacheLevelDB) :
    CacheLevelDB :=
  let s := s.rotateDBsIfNeeded full
  if !overWrite && s.keyExists key then s else s.put key value

/-- `writeByteArray` for a key of `keyLen` bytes at a pointer. What is looked up is the text
at the pointer, `string( _key )`, not the key. -/
def writeBytes (full : Bool) (memory : Bytes) (keyLen : ℕ) (value : Bytes) (s : CacheLevelDB) :
    CacheLevelDB :=
  let s := s.rotateDBsIfNeeded full
  if s.keyExists (cString memory) then s else s.put (memory.take keyLen) value

/-- `writeByteArray` for a key that is a string: it looks nothing up. -/
def writeByteArray (full : Bool) (key data : Bytes) (s : CacheLevelDB) : CacheLevelDB :=
  (s.rotateDBsIfNeeded full).put key data

/-- `readPrefixRange`. -/
def readPrefixRange (s : CacheLevelDB) (start : Bytes) : Shard Bytes Bytes :=
  merge (start.isPrefixOf ·) s.newestFirst

/-! ### The open databases -/

/-- The directories of the open databases are there, and none has a higher number. -/
structure Opened (s : CacheLevelDB) : Prop where
  le : ∀ i ∈ s.directories, i ≤ s.highestDBIndex
  there : ∀ age < LEVELDB_SHARDS, s.highestDBIndex - age ∈ s.directories
  enough : LEVELDB_SHARDS ≤ s.highestDBIndex

variable {s : CacheLevelDB} {d : Directories} {key value : Bytes} {full : Bool} {age i : ℕ}

theorem mem_openDB {j : ℕ} : i ∈ openDB d j ↔ i = j ∨ i ∈ d := by
  unfold openDB
  split_ifs with h
  · exact ⟨.inr, fun hor => hor.elim (fun heq => heq ▸ h) id⟩
  · exact AList.mem_insert d

theorem mem_foldl_openDB (indices : List ℕ) (d : Directories) :
    i ∈ indices.foldl openDB d ↔ i ∈ indices ∨ i ∈ d := by
  induction indices generalizing d with
  | nil => simp
  | cons j rest ih => rw [List.foldl_cons, ih, mem_openDB, List.mem_cons]; tauto

theorem opened_make (d : Directories) : (make d).Opened := by
  have henough : LEVELDB_SHARDS ≤ max (findMaxDBIndex d) LEVELDB_SHARDS := Nat.le_max_right ..
  refine ⟨fun i hi => ?_, fun age hage => ?_, henough⟩
  · rcases (mem_foldl_openDB _ d).mp hi with hi | hi
    · show i ≤ max (findMaxDBIndex d) LEVELDB_SHARDS
      have := List.mem_range'_1.mp hi
      omega
    · exact (List.le_max_of_le (AList.mem_keys.mp hi) le_rfl).trans (Nat.le_max_left ..)
  · refine (mem_foldl_openDB _ d).mpr (.inl (List.mem_range'_1.mpr ?_))
    show _ ≤ max (findMaxDBIndex d) LEVELDB_SHARDS - age ∧
      max (findMaxDBIndex d) LEVELDB_SHARDS - age < _
    omega

theorem make_of_opened (h : s.Opened) : make s.directories = s := by
  have henough := h.enough
  have hmax : findMaxDBIndex s.directories = s.highestDBIndex := by
    refine Nat.le_antisymm
      (List.max_le_of_forall_le _ _ fun i hi => h.le i (AList.mem_keys.mpr hi)) ?_
    exact List.le_max_of_le (AList.mem_keys.mp (h.there 0 (by decide))) le_rfl
  have hfold : ∀ indices : List ℕ, (∀ i ∈ indices, i ∈ s.directories) →
      indices.foldl openDB s.directories = s.directories := by
    intro indices hthere
    induction indices with
    | nil => rfl
    | cons i rest ih =>
      rw [List.foldl_cons, openDB, if_pos (hthere i List.mem_cons_self)]
      exact ih fun j hj => hthere j (List.mem_cons_of_mem _ hj)
  unfold make
  dsimp only
  rw [hmax, Nat.max_eq_left henough, hfold]
  intro i hi
  have hrange := List.mem_range'_1.mp hi
  have hthere := h.there (s.highestDBIndex - i) (by omega)
  rwa [Nat.sub_sub_self (by omega)] at hthere

theorem lookup_openDB_of_ne {j : ℕ} (h : i ≠ j) : (openDB d j).lookup i = d.lookup i := by
  unfold openDB
  split_ifs
  · rfl
  · exact AList.lookup_insert_ne h

/-- A directory that is not too old is not removed. -/
theorem lookup_removeOldDBs {highest : ℕ} (h : highest < i + LEVELDB_SHARDS) (rounds : ℕ) :
    (removeOldDBs highest rounds d).lookup i = d.lookup i := by
  induction rounds generalizing d with
  | zero => rfl
  | succ rounds ih =>
    unfold removeOldDBs
    split_ifs with hold
    · rfl
    · rw [ih, AList.lookup_erase_ne (by omega)]
    · rfl

theorem mem_of_mem_removeOldDBs {highest rounds : ℕ} (h : i ∈ removeOldDBs highest rounds d) :
    i ∈ d := by
  induction rounds generalizing d with
  | zero => exact h
  | succ rounds ih =>
    unfold removeOldDBs at h
    split_ifs at h
    · exact h
    · exact (AList.mem_erase.mp (ih h)).2
    · exact h

theorem opened_rotate (h : s.Opened) : (s.rotateDBsIfNeeded true).Opened := by
  refine ⟨fun i hi => ?_, fun age hage => ?_, h.enough.trans (Nat.le_succ _)⟩
  · rcases mem_openDB.mp (mem_of_mem_removeOldDBs hi) with rfl | hi
    · exact le_rfl
    · exact (h.le i hi).trans (Nat.le_succ _)
  · have henough := h.enough
    refine AList.lookup_isSome.mp ?_
    show (AList.lookup (s.highestDBIndex + 1 - age) (removeOldDBs _ _ _)).isSome = true
    rw [lookup_removeOldDBs (by omega)]
    refine AList.lookup_isSome.mpr (mem_openDB.mpr ?_)
    cases age with
    | zero => exact .inl rfl
    | succ age =>
      rw [Nat.add_sub_add_right]
      exact .inr (h.there age (by omega))

/-- A rotation makes every open database one older. -/
theorem db_rotate (h : s.Opened) (hage : age < LEVELDB_SHARDS) :
    (s.rotateDBsIfNeeded true).db age = if age = 0 then ∅ else s.db (age - 1) := by
  have henough := h.enough
  show (AList.lookup (s.highestDBIndex + 1 - age) (removeOldDBs _ _ _)).getD ∅ = _
  rw [lookup_removeOldDBs (by omega)]
  cases age with
  | zero =>
    have hnew : s.highestDBIndex + 1 ∉ s.directories := fun hmem => absurd (h.le _ hmem) (by omega)
    rw [openDB, if_neg hnew, if_pos rfl, Nat.sub_zero, AList.lookup_insert]
    rfl
  | succ age =>
    rw [Nat.add_sub_add_right, lookup_openDB_of_ne (by omega), if_neg (by omega)]
    rfl

theorem opened_update (h : s.Opened) (age : ℕ) (change : LevelDB → LevelDB) :
    (s.update age change).Opened := by
  refine ⟨fun i hi => ?_, fun age' hage' => ?_, h.enough⟩
  · rcases (AList.mem_insert _).mp hi with rfl | hi
    · exact Nat.sub_le ..
    · exact h.le i hi
  · exact (AList.mem_insert _).mpr (.inr (h.there age' hage'))

theorem db_update (h : s.Opened) {age' : ℕ} (hage : age < LEVELDB_SHARDS)
    (hage' : age' < LEVELDB_SHARDS) (change : LevelDB → LevelDB) :
    (s.update age change).db age' = if age' = age then change (s.db age) else s.db age' := by
  have henough := h.enough
  show (AList.lookup (s.highestDBIndex - age') (AList.insert _ _ _)).getD ∅ = _
  split_ifs with heq
  · rw [heq, AList.lookup_insert]
    rfl
  · rw [AList.lookup_insert_ne (by omega)]
    rfl

theorem newestFirst_eq (s : CacheLevelDB) : s.newestFirst = [s.db 0, s.db 1, s.db 2, s.db 3] := rfl

theorem keyExists_eq (s : CacheLevelDB) (key : Bytes) :
    s.keyExists key = (locate key s.newestFirst).isSome := by
  unfold keyExists
  induction s.newestFirst with
  | nil => rfl
  | cons shard older ih => cases hk : shard.lookup key <;> simp [locate, hk, ih]

theorem readString_eq (s : CacheLevelDB) (key : Bytes) :
    s.readString key = ((locate key s.newestFirst).map Prod.fst).getD [] := by
  rw [← findSome?_lookup]
  rfl

theorem newestFirst_rotate (h : s.Opened) :
    (s.rotateDBsIfNeeded true).newestFirst = (∅ :: s.newestFirst).take s.newestFirst.length := by
  have hdb : ∀ age < LEVELDB_SHARDS, (s.rotateDBsIfNeeded true).db age = _ :=
    fun age hage => db_rotate h hage
  rw [newestFirst_eq, newestFirst_eq, hdb 0 (by decide), hdb 1 (by decide), hdb 2 (by decide),
    hdb 3 (by decide)]
  rfl

theorem newestFirst_update (h : s.Opened) (hage : age < LEVELDB_SHARDS)
    (change : LevelDB → LevelDB) :
    (s.update age change).newestFirst = s.newestFirst.modify age change := by
  have hdb : ∀ age' < LEVELDB_SHARDS, (s.update age change).db age' = _ :=
    fun age' hage' => db_update h hage hage' change
  rw [newestFirst_eq, newestFirst_eq, hdb 0 (by decide), hdb 1 (by decide), hdb 2 (by decide),
    hdb 3 (by decide)]
  have hlt : age < 4 := hage
  obtain rfl | rfl | rfl | rfl : age = 0 ∨ age = 1 ∨ age = 2 ∨ age = 3 := by omega
  all_goals rfl

theorem newestFirst_put (h : s.Opened) (key value : Bytes) :
    (s.put key value).newestFirst = (s.db 0).insert key value :: s.newestFirst.tail :=
  newestFirst_update h (by decide) _

/-! ### What is found -/

/-- The value of a key, if one of the open databases has it. -/
def find (s : CacheLevelDB) (key : Bytes) : Option Bytes :=
  s.newestFirst.findSome? (AList.lookup key)

theorem readString_eq_find (s : CacheLevelDB) (key : Bytes) :
    s.readString key = (s.find key).getD [] :=
  rfl

theorem keyExists_eq_find (s : CacheLevelDB) (key : Bytes) :
    s.keyExists key = (s.find key).isSome := by
  rw [keyExists_eq, find, findSome?_lookup, Option.isSome_map]

/-- A change that leaves the key alone leaves what is found. -/
theorem find_update_of_lookup (h : s.Opened) (hage : age < LEVELDB_SHARDS)
    {change : LevelDB → LevelDB}
    (hchange : (change (s.db age)).lookup key = (s.db age).lookup key) :
    (s.update age change).find key = s.find key := by
  have hlookup : ∀ age' < LEVELDB_SHARDS,
      ((s.update age change).db age').lookup key = (s.db age').lookup key := by
    intro age' hage'
    rw [db_update h hage hage']
    split_ifs with heq
    · rw [hchange, heq]
    · rfl
  simp only [find, newestFirst_eq, List.findSome?_cons, hlookup 0 (by decide),
    hlookup 1 (by decide), hlookup 2 (by decide), hlookup 3 (by decide)]

theorem lookup_readPrefixRange (s : CacheLevelDB) (start key : Bytes) :
    (s.readPrefixRange start).lookup key = if start <+: key then s.find key else none := by
  rw [readPrefixRange, lookup_merge, find, findSome?_lookup]
  by_cases hstart : start <+: key
  · rw [if_pos hstart, if_pos (List.isPrefixOf_iff_prefix.mpr hstart)]
  · rw [if_neg hstart, if_neg fun h => hstart (List.isPrefixOf_iff_prefix.mp h)]

theorem opened_put (h : s.Opened) (key value : Bytes) : (s.put key value).Opened :=
  opened_update h 0 _

theorem opened_rotateDBsIfNeeded (h : s.Opened) (full : Bool) :
    (s.rotateDBsIfNeeded full).Opened := by
  cases full with
  | false => exact h
  | true => exact opened_rotate h

theorem find_put (h : s.Opened) (key value k : Bytes) :
    (s.put key value).find k = if k = key then some value else s.find k := by
  rw [find, find, newestFirst_put h, newestFirst_eq, List.tail_cons, List.findSome?_cons,
    List.findSome?_cons]
  split_ifs with heq
  · rw [heq, AList.lookup_insert]
  · rw [AList.lookup_insert_ne heq]
    rfl

/-- A rotation forgets what only the oldest database has. -/
theorem find_rotateDBsIfNeeded (h : s.Opened) (hold : full = true → (s.db 3).lookup key = none) :
    (s.rotateDBsIfNeeded full).find key = s.find key := by
  cases full with
  | false => rfl
  | true =>
    rw [find, find, newestFirst_rotate h, newestFirst_eq]
    simp [List.findSome?_cons, hold rfl]

/-- What is not found is not found after a rotation. -/
theorem find_rotate_eq_none (h : s.Opened) (hnone : s.find key = none) :
    (s.rotateDBsIfNeeded full).find key = none := by
  rw [find_rotateDBsIfNeeded h fun _ => ?_, hnone]
  rw [find, newestFirst_eq, List.findSome?_eq_none_iff] at hnone
  exact hnone _ (by simp)

/-- A rotation adds nothing. -/
theorem find_of_find_rotate (h : s.Opened)
    (hfind : (s.rotateDBsIfNeeded full).find key = some value) : s.find key = some value := by
  cases full with
  | false => exact hfind
  | true =>
    have hlast : s.newestFirst = [s.db 0, s.db 1, s.db 2] ++ [s.db 3] := rfl
    rw [find, newestFirst_rotate h, newestFirst_eq] at hfind
    have hyounger : [s.db 0, s.db 1, s.db 2].findSome? (AList.lookup key) = some value := hfind
    rw [find, hlast, List.findSome?_append, hyounger]
    rfl

/-- What is found after a write was found before it, or was written. -/
theorem find_of_find_writeString (h : s.Opened) {k v : Bytes}
    (hfind : (s.writeString full key value false).find k = some v) :
    s.find k = some v ∨ k = key ∧ v = value := by
  have hrotated := opened_rotateDBsIfNeeded h full
  simp only [writeString] at hfind
  split at hfind
  · exact .inl (find_of_find_rotate h hfind)
  · rw [find_put hrotated] at hfind
    split_ifs at hfind with hk
    · exact .inr ⟨hk, (Option.some.inj hfind).symm⟩
    · exact .inl (find_of_find_rotate h hfind)

theorem writeString_of_find_eq_none (h : s.Opened) (hnone : s.find key = none) :
    s.writeString full key value false = (s.rotateDBsIfNeeded full).put key value := by
  have hexists : (s.rotateDBsIfNeeded full).keyExists key = false := by
    rw [keyExists_eq_find, find_rotate_eq_none h hnone]
    rfl
  simp [writeString, hexists]

theorem opened_writeString (h : s.Opened) (full : Bool) (key value : Bytes) :
    (s.writeString full key value false).Opened := by
  have hrotated := opened_rotateDBsIfNeeded h full
  simp only [writeString]
  split
  · exact hrotated
  · exact opened_put hrotated key value

theorem find_writeString_of_ne (h : s.Opened) {k : Bytes} (hne : k ≠ key)
    (hold : full = true → (s.db 3).lookup k = none) :
    (s.writeString full key value false).find k = s.find k := by
  have hrotated := opened_rotateDBsIfNeeded h full
  rw [← find_rotateDBsIfNeeded h hold]
  simp only [writeString]
  split
  · rfl
  · rw [find_put hrotated, if_neg hne]

end CacheLevelDB

/-! ### Sequences of calls -/

/-- What happens to a database; a rotation may also come from a call of another thread. -/
inductive StoreEvent where
  | rotate
  | writeString (full : Bool) (key value : Bytes) (overWrite : Bool)
  | writeBytes (full : Bool) (memory : Bytes) (keyLen : ℕ) (value : Bytes)
  | writeByteArray (full : Bool) (key data : Bytes)
  | reopen
deriving DecidableEq, Repr

namespace StoreEvent

def apply (s : CacheLevelDB) : StoreEvent → CacheLevelDB
  | .rotate => s.rotateDBsIfNeeded true
  | .writeString full key value overWrite => s.writeString full key value overWrite
  | .writeBytes full memory keyLen value => s.writeBytes full memory keyLen value
  | .writeByteArray full key data => s.writeByteArray full key data
  | .reopen => .make s.directories

/-- Whether the event begins with a rotation. -/
def rotates : StoreEvent → Bool
  | .rotate => true
  | .writeString full _ _ _ | .writeBytes full _ _ _ | .writeByteArray full _ _ => full
  | .reopen => false

/-- The key and the value that the event is to write. -/
def written : StoreEvent → Option (Bytes × Bytes)
  | .rotate | .reopen => none
  | .writeString _ key value _ => some (key, value)
  | .writeBytes _ memory keyLen value => some (memory.take keyLen, value)
  | .writeByteArray _ key data => some (key, data)

/-- The key that is looked up by a write that must not overwrite. -/
def lookedUp : StoreEvent → Option Bytes
  | .writeString _ key _ overWrite => if overWrite then none else some key
  | .writeBytes _ memory _ _ => some (cString memory)
  | .rotate | .reopen | .writeByteArray _ _ _ => none

/-- A write is effective unless what it looks up is retained. -/
def isEffective (m : Aged Bytes Bytes) (e : StoreEvent) : Bool :=
  e.lookedUp.all fun key => (m.retained LEVELDB_SHARDS key).isNone

/-- The last effective write to every key, and how many rotations happened since. -/
def record (m : Aged Bytes Bytes) (e : StoreEvent) : Aged Bytes Bytes :=
  let m := m.rotateIf e.rotates
  match e.written with
  | some (key, value) => if e.isEffective m then m.put key value else m
  | none => m

end StoreEvent

/-- A database that was created, after these events. -/
def CacheLevelDB.after (events : List StoreEvent) : CacheLevelDB :=
  events.foldl StoreEvent.apply (.make ∅)

def lastWrites (events : List StoreEvent) : Aged Bytes Bytes :=
  events.foldl StoreEvent.record fun _ => none

section Refinement
variable {s : CacheLevelDB} {m : Aged Bytes Bytes}

/-- The databases that are open hold what was written less than `LEVELDB_SHARDS` rotations
ago. -/
structure Keeps (s : CacheLevelDB) (m : Aged Bytes Bytes) : Prop where
  opened : s.Opened
  represents : Represents s.newestFirst m

theorem Keeps.locate (h : Keeps s m) (key : Bytes) :
    locate key s.newestFirst = m.retained LEVELDB_SHARDS key :=
  h.represents key

theorem Keeps.keyExists (h : Keeps s m) (key : Bytes) :
    s.keyExists key = (m.retained LEVELDB_SHARDS key).isSome := by
  rw [CacheLevelDB.keyExists_eq, h.locate]

theorem Keeps.readString (h : Keeps s m) (key : Bytes) :
    s.readString key = ((m.retained LEVELDB_SHARDS key).map Prod.fst).getD [] := by
  rw [CacheLevelDB.readString_eq, h.locate]

theorem keeps_make : Keeps (.make ∅) fun _ => none :=
  ⟨CacheLevelDB.opened_make ∅, represents_empty LEVELDB_SHARDS⟩

theorem Keeps.rotate (h : Keeps s m) (full : Bool) :
    Keeps (s.rotateDBsIfNeeded full) (m.rotateIf full) := by
  cases full with
  | false => exact h
  | true =>
    refine ⟨CacheLevelDB.opened_rotate h.opened, ?_⟩
    rw [CacheLevelDB.newestFirst_rotate h.opened]
    exact h.represents.rotate

theorem Keeps.put (h : Keeps s m) (key value : Bytes) :
    Keeps (s.put key value) (m.put key value) := by
  refine ⟨CacheLevelDB.opened_update h.opened 0 _, ?_⟩
  rw [CacheLevelDB.newestFirst_put h.opened]
  have hnewest : Represents (s.db 0 :: s.newestFirst.tail) m := h.represents
  exact hnewest.put key value

theorem Keeps.writeUnless (h : Keeps s m) (lookedUp : Option Bytes) (key value : Bytes) :
    Keeps (if lookedUp.any s.keyExists then s else s.put key value)
      (if lookedUp.all (fun k => (m.retained LEVELDB_SHARDS k).isNone) then m.put key value
        else m) := by
  cases lookedUp with
  | none => exact h.put key value
  | some k =>
    have hexists := h.keyExists k
    cases hk : m.retained LEVELDB_SHARDS k with
    | none =>
      rw [if_neg (by simp [hexists, hk]), if_pos (by simp [hk])]
      exact h.put key value
    | some e =>
      rw [if_pos (by simp [hexists, hk]), if_neg (by simp [hk])]
      exact h

theorem Keeps.apply (h : Keeps s m) (e : StoreEvent) : Keeps (e.apply s) (e.record m) := by
  cases e with
  | rotate => exact h.rotate true
  | reopen =>
    show Keeps (.make s.directories) m
    rw [CacheLevelDB.make_of_opened h.opened]
    exact h
  | writeString full key value overWrite =>
    have hwritten := (h.rotate full).writeUnless (if overWrite then none else some key) key value
    cases overWrite <;> exact hwritten
  | writeBytes full memory keyLen value =>
    exact (h.rotate full).writeUnless (some (cString memory)) _ value
  | writeByteArray full key data => exact (h.rotate full).put key data

theorem keeps_foldl (h : Keeps s m) (events : List StoreEvent) :
    Keeps (events.foldl StoreEvent.apply s) (events.foldl StoreEvent.record m) := by
  induction events generalizing s m with
  | nil => exact h
  | cons e rest ih => exact ih (h.apply e)

theorem keeps_after (events : List StoreEvent) : Keeps (.after events) (lastWrites events) :=
  keeps_foldl keeps_make events

/-- After every sequence of writes, rotations and reopenings, a text is read as it was last
written to its key, if fewer than `LEVELDB_SHARDS` rotations happened since; such keys, and
no others, exist; and those among them that start with a text are what is read for it. -/
theorem readString_eq_lastWrite (events : List StoreEvent) :
    (∀ key, (CacheLevelDB.after events).readString key =
      match lastWrites events key with
      | some (value, rotations) => if rotations < LEVELDB_SHARDS then value else []
      | none => []) ∧
    (∀ key, (CacheLevelDB.after events).keyExists key = true ↔
      ∃ value rotations, lastWrites events key = some (value, rotations) ∧
        rotations < LEVELDB_SHARDS) ∧
    ∀ start key value, ((CacheLevelDB.after events).readPrefixRange start).lookup key = some value ↔
      start <+: key ∧ (CacheLevelDB.after events).keyExists key = true ∧
        value = (CacheLevelDB.after events).readString key := by
  have h := keeps_after events
  refine ⟨fun key => ?_, fun key => ?_, fun start key value => ?_⟩
  · rw [h.readString, Aged.retained]
    cases lastWrites events key with
    | none => rfl
    | some e => by_cases he : e.2 < LEVELDB_SHARDS <;> simp [Option.filter_some, he]
  · rw [h.keyExists, Aged.retained]
    cases lastWrites events key with
    | none => simp
    | some e =>
      obtain ⟨value, rotations⟩ := e
      by_cases he : rotations < LEVELDB_SHARDS <;> simp [Option.filter_some, he]
  · rw [h.keyExists, h.readString, ← h.locate, CacheLevelDB.readPrefixRange, lookup_merge]
    by_cases hstart : start <+: key
    · rw [if_pos (List.isPrefixOf_iff_prefix.mpr hstart)]
      cases Library.locate key (CacheLevelDB.after events).newestFirst <;>
        simp [hstart, eq_comm]
    · rw [if_neg (fun hkey => hstart (List.isPrefixOf_iff_prefix.mp hkey))]
      simp [hstart]

end Refinement

end SkaleConsensus.Db
