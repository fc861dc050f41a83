import SkaleConsensus.Db.SetStore

/-! Destroying a database.

A node that is stuck destroys the databases of its consensus and restarts. `destroy` closes the
four open databases one after the other and has LevelDB destroy the directories with the numbers
three, two, one and zero. Those are not the directories that were written: the newest has at least
the number four, and only the newest is written, or the one that a set is in already. What `destroy`
removes is therefore always empty, and what a database that is opened again reads is what was read
before (`newestFirst_destroyed`).

`forgotten_iff` says when nothing that was written can be read any more: when all of it was too
old before. -/
namespace SkaleConsensus.Db
open Library CacheLevelDB

namespace CacheLevelDB

/-- `DestroyDB`. A directory whose database is open cannot be locked, and stays. -/
def destroyDB (opened : List ℕ) (d : Directories) (index : ℕ) : Directories :=
  if index ∈ opened then d else d.erase index

/-- `destroy`: in turn `i` the databases of the lowest `i` directories are still open. -/
def destroy (s : CacheLevelDB) : Directories :=
  (List.range LEVELDB_SHARDS).reverse.foldl
    (fun d i => destroyDB (List.range' (s.highestDBIndex - LEVELDB_SHARDS + 1) i) d i) s.directories

/-- The database that is made after `destroy`. -/
def destroyed (s : CacheLevelDB) : CacheLevelDB := .make s.destroy

/-- The directories that are too low to be written are empty. -/
def LowEmpty (d : Directories) : Prop := ∀ i < LEVELDB_SHARDS, (d.lookup i).getD ∅ = ∅

variable {s : CacheLevelDB} {d : Directories}

theorem lowEmpty_openDB (h : LowEmpty d) (j : ℕ) : LowEmpty (openDB d j) := by
  intro i hi
  by_cases heq : i = j
  · subst heq
    simp only [openDB]
    split_ifs
    · exact h i hi
    · simp
  · rw [lookup_openDB_of_ne heq]
    exact h i hi

theorem lowEmpty_erase (h : LowEmpty d) (j : ℕ) : LowEmpty (d.erase j) := by
  intro i hi
  by_cases heq : i = j
  · subst heq
    rw [AList.lookup_erase]
    rfl
  · rw [AList.lookup_erase_ne heq]
    exact h i hi

theorem lowEmpty_removeOldDBs (h : LowEmpty d) (highest rounds : ℕ) :
    LowEmpty (removeOldDBs highest rounds d) := by
  induction rounds generalizing d with
  | zero => exact h
  | succ rounds ih =>
    simp only [removeOldDBs]
    split_ifs
    · exact h
    · exact ih (lowEmpty_erase h _)
    · exact h

theorem lowEmpty_foldl_openDB (h : LowEmpty d) (indices : List ℕ) :
    LowEmpty (indices.foldl openDB d) := by
  induction indices generalizing d with
  | nil => exact h
  | cons j rest ih => exact ih (lowEmpty_openDB h j)

theorem lowEmpty_rotate (h : LowEmpty s.directories) (full : Bool) :
    LowEmpty (s.rotateDBsIfNeeded full).directories := by
  cases full with
  | false => exact h
  | true => exact lowEmpty_removeOldDBs (lowEmpty_openDB h _) _ _

/-- The newest directory is not one of the low ones, and they stay empty if nothing is added to an
empty one. -/
theorem lowEmpty_update (hopened : s.Opened) (h : LowEmpty s.directories) {age : ℕ}
    (hage : age = 0 ∨ s.db age ≠ ∅) (change : LevelDB → LevelDB) :
    LowEmpty (s.update age change).directories := by
  intro i hi
  have henough := hopened.enough
  have hne : i ≠ s.highestDBIndex - age := by
    rintro rfl
    rcases hage with rfl | hsome
    · omega
    · exact hsome (h _ hi)
  show (AList.lookup i (AList.insert (s.highestDBIndex - age) _ _)).getD ∅ = ∅
  rw [AList.lookup_insert_ne hne]
  exact h i hi

theorem db_ne_empty_of_locate {key : Bytes} {e : Bytes × ℕ}
    (h : locate key s.newestFirst = some e) : s.db e.2 ≠ ∅ := by
  intro hempty
  have hlt : e.2 < LEVELDB_SHARDS := locate_lt h
  obtain ⟨shard, hshard, hlookup⟩ := lookup_of_locate h
  have hdb : s.newestFirst[e.2]? = some (s.db e.2) := by simp [newestFirst, hlt]
  rw [hdb, hempty] at hshard
  cases hshard
  cases hlookup

/-- A set goes to the newest directory or to one that has something. -/
theorem lowEmpty_findCounter (hopened : s.Opened) (h : LowEmpty s.directories) {version : Bytes}
    {blockId count age : ℕ} (hfound : s.findCounter version blockId = some (count, age))
    (change : LevelDB → LevelDB) : LowEmpty (s.update age change).directories := by
  refine lowEmpty_update hopened h ?_ change
  unfold findCounter at hfound
  split at hfound
  next result age' hlocate =>
    obtain ⟨_, -, heq⟩ := Option.map_eq_some_iff.mp hfound
    cases heq
    exact .inr (db_ne_empty_of_locate hlocate)
  next =>
    cases hfound
    exact .inl rfl

theorem update_update (s : CacheLevelDB) (age : ℕ) (f g : LevelDB → LevelDB) :
    (s.update age f).update age g = s.update age (g ∘ f) := by
  unfold update db
  dsimp only
  rw [AList.lookup_insert, AList.insert_insert]
  rfl

/-- Opening a directory changes nothing that is stored. -/
theorem getD_lookup_foldl_openDB (indices : List ℕ) (i : ℕ) :
    ((indices.foldl openDB d).lookup i).getD ∅ = (d.lookup i).getD ∅ := by
  induction indices generalizing d with
  | nil => rfl
  | cons j rest ih =>
    rw [List.foldl_cons, ih]
    by_cases heq : i = j
    · subst heq
      simp only [openDB]
      split_ifs with hthere
      · rfl
      · simp [AList.lookup_eq_none.mpr hthere]
    · rw [lookup_openDB_of_ne heq]

theorem db_make (d : Directories) (age : ℕ) :
    (make d).db age = (d.lookup ((make d).highestDBIndex - age)).getD ∅ :=
  getD_lookup_foldl_openDB _ _

/-- Destroying a directory that is empty changes nothing that is stored. -/
theorem getD_lookup_destroyDB {opened : List ℕ} {j : ℕ} (h : LowEmpty d) (hj : j < LEVELDB_SHARDS)
    (i : ℕ) : ((destroyDB opened d j).lookup i).getD ∅ = (d.lookup i).getD ∅ := by
  simp only [destroyDB]
  split_ifs
  · rfl
  · by_cases heq : i = j
    · subst heq
      rw [AList.lookup_erase, h i hj]
      rfl
    · rw [AList.lookup_erase_ne heq]

/-- What every turn keeps, `destroy` keeps. -/
theorem destroy_induction {P : Directories → Prop} (h : P s.directories)
    (hturn : ∀ opened d, ∀ j < LEVELDB_SHARDS, P d → P (destroyDB opened d j)) : P s.destroy := by
  apply List.foldlRecOn _ _ h
  intro d hd j hj
  exact hturn _ d j (by simpa using hj) hd

theorem getD_lookup_destroy (h : LowEmpty s.directories) (i : ℕ) :
    (s.destroy.lookup i).getD ∅ = (s.directories.lookup i).getD ∅ := by
  have hsame : LowEmpty s.destroy ∧
      ∀ i, (s.destroy.lookup i).getD ∅ = (s.directories.lookup i).getD ∅ := by
    apply destroy_induction (P := fun d => LowEmpty d ∧
      ∀ i, (d.lookup i).getD ∅ = (s.directories.lookup i).getD ∅)
    · exact ⟨h, fun _ => rfl⟩
    · rintro opened d j hj ⟨hlow, hd⟩
      refine ⟨fun k hk => ?_, fun k => ?_⟩
      · rw [getD_lookup_destroyDB hlow hj]
        exact hlow k hk
      · rw [getD_lookup_destroyDB hlow hj, hd]
  exact hsame.2 i

theorem mem_of_mem_destroy : ∀ i ∈ s.destroy, i ∈ s.directories := by
  apply destroy_induction (P := fun d => ∀ i ∈ d, i ∈ s.directories)
  · exact fun _ h => h
  · intro opened d j _ hd i hi
    simp only [destroyDB] at hi
    split_ifs at hi
    · exact hd i hi
    · exact hd i (AList.mem_erase.mp hi).2

/-- A directory that is not one of the low ones stays. -/
theorem mem_destroy {i : ℕ} (hi : LEVELDB_SHARDS ≤ i) (h : i ∈ s.directories) : i ∈ s.destroy := by
  apply destroy_induction (P := (i ∈ ·)) h
  intro opened d j hj hd
  simp only [destroyDB]
  split_ifs
  · exact hd
  · exact AList.mem_erase.mpr ⟨by omega, hd⟩

theorem highestDBIndex_destroyed (h : s.Opened) :
    s.destroyed.highestDBIndex = s.highestDBIndex := by
  have hnewest := mem_destroy h.enough (h.there 0 (by decide))
  have hmax : findMaxDBIndex s.destroy = s.highestDBIndex := by
    apply Nat.le_antisymm
    · exact List.max_le_of_forall_le _ _ fun i hi =>
        h.le i (mem_of_mem_destroy i (AList.mem_keys.mpr hi))
    · exact List.le_max_of_le (AList.mem_keys.mp hnewest) le_rfl
  show max (findMaxDBIndex s.destroy) LEVELDB_SHARDS = s.highestDBIndex
  rw [hmax]
  exact Nat.max_eq_left h.enough

/-- What is open after `destroy` and a restart is what was open before. -/
theorem newestFirst_destroyed (hopened : s.Opened) (h : LowEmpty s.directories) :
    s.destroyed.newestFirst = s.newestFirst := by
  have hdb : s.destroyed.db = s.db := by
    funext age
    rw [destroyed, db_make, ← destroyed, highestDBIndex_destroyed hopened, getD_lookup_destroy h]
    rfl
  rw [newestFirst, newestFirst, hdb]

end CacheLevelDB

/-! ### All writes -/

/-- What happens to a database, with the writes to sets. A database has its own version and number
of signers; nothing depends on their being the same in all calls. -/
inductive DbEvent where
  | store (e : StoreEvent)
  | writeToSet (version : Bytes) (totalSigners : ℕ) (full : Bool) (value : Bytes) (blockId : ℕ)
      (index : SchainIndex)

namespace DbEvent

def apply (s : CacheLevelDB) : DbEvent → CacheLevelDB
  | .store e => e.apply s
  | .writeToSet version totalSigners full value blockId index =>
    finalState (CacheLevelDB.writeByteArrayToSet version totalSigners full value blockId index) s

/-- The keys that the event is to write. -/
def writtenKeys : DbEvent → List Bytes
  | .store e => (e.written.map Prod.fst).toList
  | .writeToSet version _ _ _ blockId index =>
    [createCounterKey version blockId, createKey version [blockId, index]]

/-- The counter of a block and its age, as `findCounter` has them. -/
def counterOf (m : Aged Bytes Bytes) (version : Bytes) (blockId : ℕ) : Option (ℕ × ℕ) :=
  match m.retained LEVELDB_SHARDS (createCounterKey version blockId) with
  | some (text, age) => (stoull text).map fun count => (count, age)
  | none => some (0, 0)

/-- The last effective write to every key, and how many rotations happened since. What is added to
a set is as old as the set. -/
def record (m : Aged Bytes Bytes) : DbEvent → Aged Bytes Bytes
  | .store e => e.record m
  | .writeToSet version totalSigners full value blockId index =>
    let m := m.rotateIf full
    if (1 ≤ index ∧ index ≤ totalSigners) ∧
        m.retained LEVELDB_SHARDS (createKey version [blockId, index]) = none then
      match counterOf m version blockId with
      | none => m
      | some (count, age) =>
        (m.putAt (createCounterKey version blockId) (decimalText (count + 1)) age).putAt
          (createKey version [blockId, index]) value age
    else m

end DbEvent

/-- A database that was created, after these events. -/
def CacheLevelDB.afterAll (events : List DbEvent) : CacheLevelDB :=
  events.foldl DbEvent.apply (.make ∅)

def lastWritesAll (events : List DbEvent) : Aged Bytes Bytes :=
  events.foldl DbEvent.record fun _ => none

section Histories
variable {s : CacheLevelDB} {m : Aged Bytes Bytes} {key : Bytes}

theorem Keeps.putAt (h : Keeps s m) {age : ℕ} (hage : age < LEVELDB_SHARDS)
    (hold : ∀ e ∈ m.retained LEVELDB_SHARDS key, age ≤ e.2) (value : Bytes) :
    Keeps (s.update age (·.insert key value)) (m.putAt key value age) := by
  refine ⟨opened_update h.opened age _, ?_⟩
  rw [newestFirst_update h.opened hage]
  exact h.represents.putAt hage hold value

theorem Keeps.findCounter (h : Keeps s m) (version : Bytes) (blockId : ℕ) :
    s.findCounter version blockId = DbEvent.counterOf m version blockId := by
  unfold CacheLevelDB.findCounter DbEvent.counterOf
  exact h.locate (createCounterKey version blockId) ▸ rfl

/-- The counter is written where it is found, and the entry where there was none. -/
theorem Keeps.setBatch (h : Keeps s m) {version value : Bytes} {blockId count age : ℕ}
    {index : SchainIndex} (hfound : s.findCounter version blockId = some (count, age))
    (hnew : m.retained LEVELDB_SHARDS (createKey version [blockId, index]) = none) :
    Keeps (s.update age (CacheLevelDB.setBatch version (count + 1) value blockId index))
      ((m.putAt (createCounterKey version blockId) (decimalText (count + 1)) age).putAt
        (createKey version [blockId, index]) value age) := by
  have hage := findCounter_lt hfound
  have hcounter : ∀ e ∈ m.retained LEVELDB_SHARDS (createCounterKey version blockId),
      age ≤ e.2 := by
    intro e he
    rw [h.findCounter, DbEvent.counterOf, he] at hfound
    obtain ⟨_, -, heq⟩ := Option.map_eq_some_iff.mp hfound
    exact (congrArg Prod.snd heq).ge
  have hbatch : s.update age (CacheLevelDB.setBatch version (count + 1) value blockId index) =
      (s.update age (·.insert (createCounterKey version blockId) (decimalText (count + 1)))).update
        age (·.insert (createKey version [blockId, index]) value) :=
    (update_update s age _ _).symm
  rw [hbatch]
  refine (h.putAt hage hcounter _).putAt hage (fun e he => ?_) value
  rw [Aged.retained, Aged.putAt, if_neg (createKey_ne_createCounterKey _ _ _), ← Aged.retained,
    hnew] at he
  cases he

/-- What a history keeps: the databases hold what is young enough, and the low ones nothing. -/
structure KeptLow (s : CacheLevelDB) (m : Aged Bytes Bytes) : Prop extends Keeps s m where
  low : CacheLevelDB.LowEmpty s.directories

theorem KeptLow.store (h : KeptLow s m) (e : StoreEvent) : KeptLow (e.apply s) (e.record m) := by
  refine ⟨h.toKeeps.apply e, ?_⟩
  have hput : ∀ full key value,
      CacheLevelDB.LowEmpty ((s.rotateDBsIfNeeded full).put key value).directories :=
    fun full key value => lowEmpty_update (h.rotate full).opened
      (lowEmpty_rotate h.low full) (.inl rfl) _
  cases e with
  | rotate => exact lowEmpty_rotate h.low true
  | reopen => exact lowEmpty_foldl_openDB h.low _
  | writeString full key value overWrite =>
    simp only [StoreEvent.apply, CacheLevelDB.writeString]
    split_ifs
    · exact lowEmpty_rotate h.low full
    · exact hput full key value
  | writeBytes full memory keyLen value =>
    simp only [StoreEvent.apply, CacheLevelDB.writeBytes]
    split_ifs
    · exact lowEmpty_rotate h.low full
    · exact hput full _ value
  | writeByteArray full key data => exact hput full key data

theorem KeptLow.apply (h : KeptLow s m) (e : DbEvent) : KeptLow (e.apply s) (e.record m) := by
  cases e with
  | store e => exact h.store e
  | writeToSet version totalSigners full value blockId index =>
    have hrotated := h.rotate full
    have hlow := lowEmpty_rotate h.low full
    by_cases hindex : 1 ≤ index ∧ index ≤ totalSigners
    · simp only [DbEvent.apply, DbEvent.record, finalState_writeByteArrayToSet_eq hindex,
        hrotated.keyExists, hindex, true_and, and_self]
      cases hentry :
          (m.rotateIf full).retained LEVELDB_SHARDS (createKey version [blockId, index]) with
      | some entry => exact ⟨hrotated, hlow⟩
      | none =>
        rw [if_neg (by simp), if_pos rfl, ← hrotated.findCounter]
        cases hfound : (s.rotateDBsIfNeeded full).findCounter version blockId with
        | none => exact ⟨hrotated, hlow⟩
        | some found =>
          exact ⟨hrotated.setBatch hfound hentry,
            lowEmpty_findCounter hrotated.opened hlow hfound _⟩
    · have hthrows : finalState (CacheLevelDB.writeByteArrayToSet version totalSigners full value
          blockId index) s = s.rotateDBsIfNeeded full := by
        unfold CacheLevelDB.writeByteArrayToSet CacheLevelDB.writeByteArrayToSetUnsafe
        rw [finalState_bind_of_ok (x := modify _) (a := ()) rfl, checkArgument,
          decide_eq_false (p := 0 < index ∧ _) hindex]
        rfl
      simp only [DbEvent.apply, DbEvent.record, hthrows, hindex, false_and, if_false]
      exact ⟨hrotated, hlow⟩

theorem kept_afterAll (events : List DbEvent) :
    KeptLow (.afterAll events) (lastWritesAll events) := by
  have hfold : ∀ (events : List DbEvent) (s m), KeptLow s m →
      KeptLow (events.foldl DbEvent.apply s) (events.foldl DbEvent.record m) := by
    intro events
    induction events with
    | nil => exact fun _ _ h => h
    | cons e rest ih => exact fun _ _ h => ih _ _ (h.apply e)
  exact hfold events _ _
    ⟨keeps_make, lowEmpty_foldl_openDB (by simp [CacheLevelDB.LowEmpty]) _⟩

/-! ### What is left -/

/-- No key that was written can be read from the database that is made after `destroy`. -/
def Forgotten (events : List DbEvent) : Prop :=
  ∀ e ∈ events, ∀ key ∈ e.writtenKeys,
    (CacheLevelDB.afterAll events).destroyed.keyExists key = false ∧
    ∀ start, ((CacheLevelDB.afterAll events).destroyed.readPrefixRange start).lookup key = none

theorem newestFirst_destroyed_afterAll (events : List DbEvent) :
    (CacheLevelDB.afterAll events).destroyed.newestFirst =
      (CacheLevelDB.afterAll events).newestFirst :=
  newestFirst_destroyed (kept_afterAll events).opened (kept_afterAll events).low

/-- An event leaves the keys it does not write, however old they get. -/
theorem DbEvent.record_of_notMem {e : DbEvent} (hkey : key ∉ e.writtenKeys) (hnone : m key = none) :
    e.record m key = none := by
  have hrotated : ∀ full, m.rotateIf full key = none := by
    intro full
    cases full <;> simp [Aged.rotateIf, Aged.rotate, hnone]
  cases e with
  | store e =>
    simp only [DbEvent.record, StoreEvent.record]
    cases hwritten : e.written with
    | none => exact hrotated _
    | some entry =>
      have hne : key ≠ entry.1 := fun heq => hkey (by simp [writtenKeys, hwritten, heq])
      dsimp only
      split_ifs
      · simp only [Aged.put, hne, if_false, hrotated]
      · exact hrotated _
  | writeToSet version totalSigners full value blockId index =>
    simp only [writtenKeys, List.mem_cons, List.not_mem_nil, or_false, not_or] at hkey
    simp only [DbEvent.record]
    split_ifs
    · cases counterOf (m.rotateIf full) version blockId with
      | none => exact hrotated _
      | some found => simp only [Aged.putAt, hkey.1, hkey.2, if_false, hrotated]
    · exact hrotated _

theorem exists_written {events : List DbEvent} (h : lastWritesAll events key ≠ none) :
    ∃ e ∈ events, key ∈ e.writtenKeys := by
  by_contra hnot
  push Not at hnot
  refine h (List.foldlRecOn events DbEvent.record (motive := fun m => m key = none) rfl ?_)
  exact fun m hm e he => DbEvent.record_of_notMem (hnot e he) hm

/-- After every history of writes, rotations and reopenings, `destroy` and a restart leave nothing
of what was written exactly when all of it is too many rotations old to be read anyway. -/
theorem forgotten_iff (events : List DbEvent) :
    Forgotten events ↔ ∀ key value rotations,
      lastWritesAll events key = some (value, rotations) → LEVELDB_SHARDS ≤ rotations := by
  have hsame := newestFirst_destroyed_afterAll events
  have hexists : ∀ key, (CacheLevelDB.afterAll events).destroyed.keyExists key =
      (CacheLevelDB.afterAll events).keyExists key := by
    intro key
    rw [keyExists_eq, keyExists_eq, hsame]
  have hrange : ∀ start, (CacheLevelDB.afterAll events).destroyed.readPrefixRange start =
      (CacheLevelDB.afterAll events).readPrefixRange start := by
    intro start
    rw [CacheLevelDB.readPrefixRange, CacheLevelDB.readPrefixRange, hsame]
  have hread := (kept_afterAll events).toKeeps
  constructor
  · intro h key value rotations hlast
    obtain ⟨e, he, hwritten⟩ := exists_written (hlast ▸ Option.some_ne_none _)
    have hgone := (h e he key hwritten).1
    rw [hexists, hread.keyExists, Aged.retained, hlast] at hgone
    by_contra hyoung
    simp [Option.filter_some, Nat.lt_of_not_le hyoung] at hgone
  · intro h e he key hwritten
    have hnone : (lastWritesAll events).retained LEVELDB_SHARDS key = none := by
      rw [Aged.retained]
      cases hlast : lastWritesAll events key with
      | none => rfl
      | some entry =>
        have hold := h key entry.1 entry.2 hlast
        simp [Option.filter_some, Nat.not_lt_of_le hold]
    refine ⟨?_, fun start => ?_⟩
    · rw [hexists, hread.keyExists, hnone]
      rfl
    · rw [hrange, CacheLevelDB.readPrefixRange, lookup_merge, hread.locate, hnone]
      simp

end Histories

/-! ### A node that is stuck -/

/-- The databases that `StuckDetectionAgent::cleanupState` destroys. -/
inductive CleanedDB where
  | incomingMsgDB
  | outgoingMsgDB
  | blockSigShareDB
  | daSigShareDB
  | daProofDB
  | consensusStateDB
  | proposalVectorDB
  | randomDB
deriving DecidableEq, Repr

def cleanupState (dbs : CleanedDB → CacheLevelDB) : CleanedDB → Directories := fun db =>
  (dbs db).destroy

/-- After the restart the node reads what it read before. -/
theorem readString_cleanupState (events : CleanedDB → List DbEvent) (db : CleanedDB) (key : Bytes) :
    (CacheLevelDB.make (cleanupState (fun db => .afterAll (events db)) db)).readString key =
      (CacheLevelDB.afterAll (events db)).readString key := by
  rw [readString_eq, readString_eq, ← newestFirst_destroyed_afterAll]
  rfl

/-- A text that is written is still there, and so is a share. -/
theorem written_not_forgotten :
    ¬ Forgotten [.store (.writeString false (textBytes "1.0:1:0") (textBytes "vote") false)] ∧
    ¬ Forgotten [.writeToSet (textBytes "1.0") 4 false (textBytes "share") 1 1] := by
  constructor
  · intro h
    have hgone := (h _ List.mem_cons_self (textBytes "1.0:1:0") List.mem_cons_self).1
    revert hgone
    decide +kernel
  · intro h
    have hgone := (h _ List.mem_cons_self (createCounterKey (textBytes "1.0") 1)
      List.mem_cons_self).1
    revert hgone
    decide +kernel

end SkaleConsensus.Db
