import SkaleConsensus.Db.CacheLevelDB
import SkaleConsensus.Library.Execution
import SkaleConsensus.Library.LruCache
import SkaleConsensus.Library.Program

/-! The database of committed blocks.

`saveBlock` writes the serialized block under its id, then the id under the key of the last
committed block. Each write may begin with a rotation, and the node may crash between any two
of these; what is in memory is lost then, and the directories are opened again.

The last id is found again as long as the database it was written to is open, and so is the
block. Every save that completes writes both anew; but saves that are interrupted again and
again rotate the databases without writing the last id, and four rotations remove it
(`nothing_committed_after_two_crashes`). `recovered_of_rotations_bounded` is what holds of
runs that do not. -/
namespace SkaleConsensus.Db
open Library

/-- `CommittedBlock::serialize` and `deserialize`: a block that was written can be read. -/
structure BlockCodec (β : Type) where
  getBlockID : β → ℕ
  getSignature : β → Bytes
  serialize : β → Bytes
  deserialize : Bytes → Except String β
  head_serialize : ∀ block, (serialize block)[8]? = some 123
  last_serialize : ∀ block, (serialize block).getLast? = some 62
  deserialize_serialize : ∀ block, deserialize (serialize block) = .ok block

def NUMBER_OF_BLOCKS_TO_CACHE : ℕ := 3

structure BlockDB where
  db : CacheLevelDB
  blockCache : LruCache ℕ Bytes NUMBER_OF_BLOCKS_TO_CACHE

namespace BlockDB

def getFormatVersion : Bytes := textBytes "1.0"

def createLastCommittedKey : Bytes := getFormatVersion ++ textBytes ":last"

def createBlockKey (blockID : ℕ) : Bytes := createKey getFormatVersion [blockID]

/-- The constructor, over the directories that are there. -/
def make (d : Directories) : BlockDB := ⟨.make d, .empty⟩

def readLastCommittedBlockID (s : BlockDB) : ℕ :=
  let blockStr := s.db.readString createLastCommittedKey
  if blockStr.isEmpty then 0 else streamUint64 blockStr

def getSerializedBlockFromLevelDB (blockID : ℕ) : EStateM String BlockDB (Option Bytes) := do
  let s ← get
  match s.blockCache.get? blockID with
  | some block =>
    set {s with blockCache := s.blockCache.touch blockID}
    return some block
  | none =>
    let value := s.db.readString (createBlockKey blockID)
    if value.isEmpty then return none
    serializedSanityCheck value
    return some value

section Codec
variable {β : Type} (codec : BlockCodec β)

def getBlock (blockID : ℕ) : EStateM String BlockDB (Option β) := do
  match ← getSerializedBlockFromLevelDB blockID with
  | none => return none
  | some serializedBlock =>
    match codec.deserialize serializedBlock with
    | .error e => throw e
    | .ok block => return some block

/-- `saveBlock`; `full` and `full'` say whether the newest database is full when the block and
when the last id are to be written. -/
def saveBlock (full full' : Bool) (block : β) : EStateM String BlockDB Unit := do
  checkArgument (!(codec.getSignature block).isEmpty) "!_block->getSignature().empty()"
  let serializedBlock := codec.serialize block
  modify fun s => {s with blockCache := s.blockCache.put (codec.getBlockID block) serializedBlock}
  let key := createBlockKey (codec.getBlockID block)
  checkState (!key.isEmpty) "!key.empty()"
  modify fun s => {s with db := s.db.writeByteArray full key serializedBlock}
  modify fun s => {s with
    db := s.db.writeString full' createLastCommittedKey (decimalText (codec.getBlockID block)) true}

/-! ### What may be interrupted -/

/-- What `saveBlock` does to the directories, one after the other. -/
def saveSteps (full full' : Bool) (block : β) : List StoreEvent :=
  (if full then [.rotate] else []) ++
    .writeByteArray false (createBlockKey (codec.getBlockID block)) (codec.serialize block) ::
    ((if full' then [.rotate] else []) ++
      [.writeString false createLastCommittedKey (decimalText (codec.getBlockID block)) true])

/-- The steps are those of `saveBlock`. -/
theorem saveBlock_run {block : β} (hsignature : codec.getSignature block ≠ []) (full full' : Bool)
    (s : BlockDB) :
    (saveBlock codec full full' block).run s = .ok ()
      { db := (saveSteps codec full full' block).foldl StoreEvent.apply s.db
        blockCache := s.blockCache.put (codec.getBlockID block) (codec.serialize block) } := by
  have hkey : (!(createBlockKey (codec.getBlockID block)).isEmpty) = true := by
    simp [createBlockKey, createKey]
  unfold saveBlock
  dsimp only
  rw [not_isEmpty hsignature, hkey]
  cases full <;> cases full' <;> rfl

end Codec

end BlockDB

/-! ### Runs -/

/-- A save that returns, a save after whose first steps the node crashes, and a restart
between two saves. -/
inductive BlockEvent (β : Type) where
  | save (full full' : Bool) (block : β)
  | interrupted (full full' : Bool) (block : β) (done : ℕ)
  | reopen

/-- How many of the steps rotate the databases. -/
def rotations (steps : List StoreEvent) : ℕ := steps.countP StoreEvent.rotates

structure BlockRun where
  blockDB : BlockDB
  /-- The id of the last call. -/
  latest : Option ℕ
  /-- The id of the last call that returned. -/
  returned : Option ℕ
  /-- The ids of the calls that were interrupted since. -/
  interrupted : List ℕ
  /-- The id that was last written as the last committed one, and how many rotations happened
  since its block was written. -/
  recorded : Option (ℕ × ℕ)
  /-- The last committed id that was read before the last event. -/
  before : ℕ

namespace BlockRun

/-- What is read when the directories are opened again. -/
@[irreducible] def recoveredID (s : BlockRun) : ℕ :=
  (BlockDB.make s.blockDB.db.directories).readLastCommittedBlockID

end BlockRun

section Machine
variable {β : Type} (codec : BlockCodec β)

/-- A signed block whose id follows that of the last call, or is the same. -/
structure Follows (s : BlockRun) (block : β) : Prop where
  id : ∀ last ∈ s.latest, codec.getBlockID block = last ∨ codec.getBlockID block = last + 1
  range : codec.getBlockID block < 2 ^ 64
  signed : codec.getSignature block ≠ []

instance (s : BlockRun) (block : β) : Decidable (Follows codec s block) :=
  decidable_of_iff ((∀ last ∈ s.latest, codec.getBlockID block = last ∨
      codec.getBlockID block = last + 1) ∧ codec.getBlockID block < 2 ^ 64 ∧
        codec.getSignature block ≠ [])
    ⟨fun h => ⟨h.1, h.2.1, h.2.2⟩, fun h => ⟨h.id, h.range, h.signed⟩⟩

/-- The node crashes after the first steps of a save, and starts again. -/
def crashDuring (full full' : Bool) (block : β) (done : ℕ) (s : BlockRun) : BlockRun :=
  let steps := BlockDB.saveSteps codec full full' block
  let id := codec.getBlockID block
  { blockDB := .make ((steps.take done).foldl StoreEvent.apply s.blockDB.db).directories
    latest := some id
    returned := s.returned
    interrupted := id :: s.interrupted
    recorded :=
      if steps.length ≤ done then some (id, full'.toNat)
      else s.recorded.map fun r => (r.1, r.2 + rotations (steps.take done))
    before := s.recoveredID }

def blockDatabase : Machine BlockRun (BlockEvent β) where
  initial := ⟨.make ∅, none, none, [], none, 0⟩
  step
    | .reopen, s => some {s with
        blockDB := .make s.blockDB.db.directories
        before := s.recoveredID }
    | .save full full' block, s =>
      let id := codec.getBlockID block
      if Follows codec s block then
        match (BlockDB.saveBlock codec full full' block).run s.blockDB with
        | .ok () blockDB => some
            { blockDB, latest := some id, returned := some id, interrupted := []
              recorded := some (id, full'.toNat), before := s.recoveredID }
        | .error _ _ => none
      else none
    | .interrupted full full' block done, s =>
      if Follows codec s block then some (crashDuring codec full full' block done s) else none

/-- What is expected of a database that is opened again. -/
structure Recovered (s : BlockRun) : Prop where
  /-- The last call that returned, or one that was interrupted since; nothing if nothing was
  saved. -/
  known : s.returned = some s.recoveredID ∨ s.recoveredID ∈ s.interrupted ∨
    s.returned = none ∧ s.recoveredID = 0
  notSmaller : s.before ≤ s.recoveredID
  found : 0 < s.recoveredID → ∃ block s', codec.getBlockID block = s.recoveredID ∧
    (BlockDB.getBlock codec s.recoveredID).run (.make s.blockDB.db.directories) =
      .ok (some block) s'

/-- The crash comes before `LEVELDB_SHARDS` rotations happened since the block that was last
recorded as committed was written, unless the interrupted save has recorded its own. -/
def RotationsBounded : BlockEvent β → BlockRun → Prop
  | .interrupted full full' block done, s =>
    let steps := BlockDB.saveSteps codec full full' block
    done < steps.length → ∀ r ∈ s.recorded, r.2 + rotations (steps.take done) < LEVELDB_SHARDS
  | .save _ _ _, _ | .reopen, _ => True

instance (event : BlockEvent β) (s : BlockRun) : Decidable (RotationsBounded codec event s) :=
  match event with
  | .interrupted _ _ _ _ => inferInstanceAs (Decidable (_ → _))
  | .save _ _ _ | .reopen => inferInstanceAs (Decidable True)

end Machine

/-! ### What the steps of a save keep -/

section Steps
variable {β : Type} {codec : BlockCodec β} {m : Aged Bytes Bytes} {id r : ℕ}

theorem createBlockKey_ne_createLastCommittedKey (id : ℕ) :
    BlockDB.createBlockKey id ≠ BlockDB.createLastCommittedKey := by
  intro h
  have htail := List.append_cancel_left h
  rw [List.flatMap_singleton] at htail
  -- the number behind the colon would begin with a letter
  have hmem : (108 : UInt8) ∈ decimalText id := by
    rw [(List.cons.inj htail).2]
    decide
  exact absurd (isDigit_of_mem_decimalText hmem) (by decide)

/-- The id of the last committed block was written, and a block with this id, at most `r`
rotations ago. -/
structure Recorded (codec : BlockCodec β) (m : Aged Bytes Bytes) (id r : ℕ) : Prop where
  last : ∃ age ≤ r, m BlockDB.createLastCommittedKey = some (decimalText id, age)
  block : ∃ block, ∃ age ≤ r, codec.getBlockID block = id ∧
    m (BlockDB.createBlockKey id) = some (codec.serialize block, age)

/-- The steps before the last one. -/
def IsHarmless (codec : BlockCodec β) (step : StoreEvent) : Prop :=
  step = .rotate ∨ ∃ block, step =
    .writeByteArray false (BlockDB.createBlockKey (codec.getBlockID block)) (codec.serialize block)

@[simp] theorem record_rotate : StoreEvent.record m .rotate = m.rotate := rfl

@[simp] theorem record_writeByteArray (key data : Bytes) :
    StoreEvent.record m (.writeByteArray false key data) = m.put key data := rfl

@[simp] theorem record_overWrite (key value : Bytes) :
    StoreEvent.record m (.writeString false key value true) = m.put key value := rfl

theorem Recorded.step (h : Recorded codec m id r) {step : StoreEvent}
    (hstep : IsHarmless codec step) :
    Recorded codec (step.record m) id (r + rotations [step]) := by
  obtain ⟨⟨age, hage, hlast⟩, block, age', hage', hid, hblock⟩ := h
  rcases hstep with rfl | ⟨new, rfl⟩
  · refine ⟨⟨age + 1, Nat.succ_le_succ hage, ?_⟩, block, age' + 1, Nat.succ_le_succ hage', hid, ?_⟩
    · simp [Aged.rotate, hlast]
    · simp [Aged.rotate, hblock]
  · rw [record_writeByteArray]
    refine ⟨⟨age, hage, ?_⟩, ?_⟩
    · simp [Aged.put, (createBlockKey_ne_createLastCommittedKey _).symm, hlast]
    · by_cases hsame : codec.getBlockID new = id
      · exact ⟨new, 0, Nat.zero_le _, hsame, by simp [Aged.put, hsame]⟩
      · have hkey : BlockDB.createBlockKey id ≠ BlockDB.createBlockKey (codec.getBlockID new) :=
          fun heq => hsame (List.cons.inj (createKey_injective heq)).1.symm
        exact ⟨block, age', hage', hid, by simp [Aged.put, hkey, hblock]⟩

theorem Recorded.steps {steps : List StoreEvent} (hsteps : ∀ step ∈ steps, IsHarmless codec step)
    (h : Recorded codec m id r) :
    Recorded codec (steps.foldl StoreEvent.record m) id (r + rotations steps) := by
  induction steps generalizing m r with
  | nil => exact h
  | cons step rest ih =>
    have hrest := ih (fun e he => hsteps e (List.mem_cons_of_mem _ he))
      (h.step (hsteps step List.mem_cons_self))
    have hcount : rotations (step :: rest) = rotations [step] + rotations rest := by
      simp only [rotations, List.countP_cons, List.countP_nil]
      omega
    rwa [hcount, ← Nat.add_assoc]

theorem lastCommittedKey_steps {steps : List StoreEvent}
    (hsteps : ∀ step ∈ steps, IsHarmless codec step)
    (h : m BlockDB.createLastCommittedKey = none) :
    steps.foldl StoreEvent.record m BlockDB.createLastCommittedKey = none := by
  induction steps generalizing m with
  | nil => exact h
  | cons step rest ih =>
    refine ih (fun e he => hsteps e (List.mem_cons_of_mem _ he)) ?_
    rcases hsteps step List.mem_cons_self with rfl | ⟨new, rfl⟩
    · simp [Aged.rotate, h]
    · simp [Aged.put, (createBlockKey_ne_createLastCommittedKey _).symm, h]

variable (codec) in
theorem harmless_of_mem_take {full full' : Bool} {block : β} {done : ℕ}
    (hdone : done < (BlockDB.saveSteps codec full full' block).length) :
    ∀ step ∈ (BlockDB.saveSteps codec full full' block).take done, IsHarmless codec step := by
  intro step hstep
  have hdropLast : step ∈ (BlockDB.saveSteps codec full full' block).dropLast := by
    rw [List.dropLast_eq_take]
    exact (List.take_prefix_take_left (by omega)).subset hstep
  cases full <;> cases full' <;>
    simp [BlockDB.saveSteps] at hdropLast <;>
    rcases hdropLast with rfl | rfl | rfl <;>
    first | exact .inl rfl | exact .inr ⟨block, rfl⟩

variable (codec) in
theorem recorded_saveSteps (full full' : Bool) (block : β) (m : Aged Bytes Bytes) :
    Recorded codec ((BlockDB.saveSteps codec full full' block).foldl StoreEvent.record m)
      (codec.getBlockID block) full'.toNat := by
  have hkey := createBlockKey_ne_createLastCommittedKey (codec.getBlockID block)
  rw [BlockDB.saveSteps, List.foldl_append]
  generalize (if full then [StoreEvent.rotate] else []).foldl StoreEvent.record m = m₁
  refine ⟨⟨0, Nat.zero_le _, ?_⟩, block, full'.toNat, le_rfl, rfl, ?_⟩
  · cases full' <;> simp [Aged.put]
  · cases full' <;> simp [Aged.put, Aged.rotate, hkey]

end Steps

/-! ### What a whole run keeps -/

section Run
variable {β : Type} {codec : BlockCodec β} {s s' : BlockRun} {block : β} {full' : Bool}

/-- What the directories have of the saves. -/
structure Sound (codec : BlockCodec β) (s : BlockRun) : Prop where
  keeps : ∃ m, Keeps s.blockDB.db m ∧ match s.recorded with
    | none => m BlockDB.createLastCommittedKey = none ∧ s.returned = none
    | some (id, r) => Recorded codec m id r ∧ r < LEVELDB_SHARDS
  known : ∀ r ∈ s.recorded, r.1 < 2 ^ 64 ∧ (s.returned = some r.1 ∨ r.1 ∈ s.interrupted) ∧
    ∃ last ∈ s.latest, r.1 ≤ last
  before : s.before ≤ (s.recorded.map Prod.fst).getD 0

theorem Sound.recoveredID (h : Sound codec s) :
    s.recoveredID = (s.recorded.map Prod.fst).getD 0 := by
  obtain ⟨m, hm, hrecorded⟩ := h.keeps
  unfold BlockRun.recoveredID BlockDB.readLastCommittedBlockID
  dsimp only [BlockDB.make]
  rw [CacheLevelDB.make_of_opened hm.opened, hm.readString]
  cases hr : s.recorded with
  | none =>
    rw [hr] at hrecorded
    simp [Aged.retained, hrecorded.1]
  | some r =>
    rw [hr] at hrecorded
    obtain ⟨⟨⟨age, hage, hlast⟩, -⟩, hlt⟩ := hrecorded
    have hretained := Nat.lt_of_le_of_lt hage hlt
    simp [Aged.retained, hlast, Option.filter_some, hretained, decimalText_ne_nil,
      streamUint64_decimalText (h.known r hr).1]

theorem getBlock_of_readString {d : BlockDB} {id : ℕ} (hcache : d.blockCache.get? id = none)
    (h : d.db.readString (BlockDB.createBlockKey id) = codec.serialize block) :
    (BlockDB.getBlock codec id).run d = .ok (some block) d := by
  have hne : (codec.serialize block).isEmpty = false := by
    cases hbytes : codec.serialize block with
    | nil => exact absurd (codec.head_serialize block) (by simp [hbytes])
    | cons => rfl
  have hserialized : (BlockDB.getSerializedBlockFromLevelDB id).run d =
      .ok (some (codec.serialize block)) d := by
    unfold BlockDB.getSerializedBlockFromLevelDB
    rw [run_get_bind, hcache]
    dsimp only
    rw [h, hne, serializedSanityCheck, codec.head_serialize, codec.last_serialize]
    rfl
  unfold BlockDB.getBlock
  refine run_bind_eq_ok.mpr ⟨_, _, hserialized, ?_⟩
  dsimp only
  rw [codec.deserialize_serialize]
  rfl

theorem Sound.recovered (h : Sound codec s) : Recovered codec s := by
  have hid := h.recoveredID
  obtain ⟨m, hm, hrecorded⟩ := h.keeps
  refine ⟨?_, hid.symm ▸ h.before, fun hpos => ?_⟩
  · cases hr : s.recorded with
    | none =>
      rw [hr] at hrecorded hid
      exact .inr (.inr ⟨hrecorded.2, hid⟩)
    | some r =>
      rw [hr] at hid
      have hknown := (h.known r hr).2.1
      rw [show s.recoveredID = r.1 from hid]
      exact hknown.imp_right .inl
  · cases hr : s.recorded with
    | none =>
      rw [hr] at hid
      exact absurd hid hpos.ne'
    | some r =>
      rw [hr] at hrecorded hid
      rw [show s.recoveredID = r.1 from hid]
      obtain ⟨⟨-, block, age, hage, hblock, hbody⟩, hlt⟩ := hrecorded
      have hretained := Nat.lt_of_le_of_lt hage hlt
      refine ⟨block, _, hblock, getBlock_of_readString rfl ?_⟩
      rw [BlockDB.make, CacheLevelDB.make_of_opened hm.opened, hm.readString]
      simp [Aged.retained, hbody, Option.filter_some, hretained]

theorem Sound.reopen (h : Sound codec s) :
    Sound codec {s with blockDB := .make s.blockDB.db.directories, before := s.recoveredID} := by
  have hid := h.recoveredID
  obtain ⟨m, hm, hrecorded⟩ := h.keeps
  refine ⟨⟨m, ?_, hrecorded⟩, h.known, hid.le⟩
  exact hm.apply .reopen

theorem Sound.le_of_follows (h : Sound codec s) (hfollows : Follows codec s block) :
    s.recoveredID ≤ codec.getBlockID block := by
  rw [h.recoveredID]
  cases hr : s.recorded with
  | none => exact Nat.zero_le _
  | some r =>
    obtain ⟨-, -, last, hlast, hle⟩ := h.known r hr
    have hid := hfollows.id last hlast
    show r.1 ≤ codec.getBlockID block
    omega

/-- A save whose steps are all done records its block. -/
theorem Sound.of_recorded (h : Sound codec s) (hfollows : Follows codec s block)
    {m : Aged Bytes Bytes} (hkeeps : Keeps s'.blockDB.db m)
    (hm : Recorded codec m (codec.getBlockID block) full'.toNat)
    (hrecorded : s'.recorded = some (codec.getBlockID block, full'.toNat))
    (hknown : s'.returned = some (codec.getBlockID block) ∨ codec.getBlockID block ∈ s'.interrupted)
    (hlatest : s'.latest = some (codec.getBlockID block)) (hbefore : s'.before = s.recoveredID) :
    Sound codec s' := by
  refine ⟨⟨m, hkeeps, ?_⟩, ?_, ?_⟩
  · rw [hrecorded]
    exact ⟨hm, by cases full' <;> decide⟩
  · rw [hrecorded]
    rintro r hr
    cases hr
    exact ⟨hfollows.range, hknown, _, hlatest, le_rfl⟩
  · rw [hrecorded, hbefore]
    exact h.le_of_follows hfollows

theorem Sound.save (h : Sound codec s) {full : Bool}
    (hstep : (blockDatabase codec).step (.save full full' block) s = some s') : Sound codec s' := by
  simp only [blockDatabase] at hstep
  split_ifs at hstep with hfollows
  rw [BlockDB.saveBlock_run codec hfollows.signed] at hstep
  cases hstep
  obtain ⟨m, hm, -⟩ := h.keeps
  exact h.of_recorded hfollows (keeps_foldl hm _) (recorded_saveSteps codec full full' block m) rfl
    (.inl rfl) rfl rfl

/-- A save that is interrupted early enough loses nothing that is recorded. -/
theorem Sound.interrupt (h : Sound codec s) {full : Bool} {done : ℕ}
    (hfollows : Follows codec s block)
    (hbounded : RotationsBounded codec (.interrupted full full' block done) s) :
    Sound codec (crashDuring codec full full' block done s) := by
  have hid := h.recoveredID
  obtain ⟨m, hm, hrecorded⟩ := h.keeps
  have hkeeps :=
    (keeps_foldl hm ((BlockDB.saveSteps codec full full' block).take done)).apply .reopen
  by_cases hdone : (BlockDB.saveSteps codec full full' block).length ≤ done
  · have hall := recorded_saveSteps codec full full' block m
    rw [List.take_of_length_le hdone] at hkeeps
    refine h.of_recorded hfollows ?_ hall ?_ (.inr List.mem_cons_self) rfl rfl
    · rw [crashDuring, List.take_of_length_le hdone]
      exact hkeeps
    · exact if_pos hdone
  · have hearly := Nat.lt_of_not_le hdone
    have hharmless := harmless_of_mem_take codec hearly
    have hnew : (crashDuring codec full full' block done s).recorded =
        s.recorded.map fun r =>
          (r.1, r.2 + rotations ((BlockDB.saveSteps codec full full' block).take done)) :=
            if_neg hdone
    refine ⟨⟨_, hkeeps, ?_⟩, ?_, ?_⟩
    · rw [hnew]
      cases hr : s.recorded with
      | none =>
        rw [hr] at hrecorded
        exact ⟨lastCommittedKey_steps hharmless hrecorded.1, hrecorded.2⟩
      | some r =>
        rw [hr] at hrecorded
        exact ⟨hrecorded.1.steps hharmless, hbounded hearly r hr⟩
    · rw [hnew]
      intro r hr
      obtain ⟨old, hold, rfl⟩ := Option.map_eq_some_iff.mp hr
      obtain ⟨hrange, hknown, last, hlast, hle⟩ := h.known old hold
      have hnext := hfollows.id last hlast
      refine ⟨hrange, hknown.imp_right (List.mem_cons_of_mem _), _, rfl, ?_⟩
      show old.1 ≤ codec.getBlockID block
      omega
    · rw [hnew]
      show s.recoveredID ≤ _
      rw [hid]
      cases s.recorded <;> exact le_rfl

/-- In every run whose crashes all come before `LEVELDB_SHARDS` rotations happened since the
block that was last recorded as committed was written: when the database is opened again, the
last committed block is the last one that was saved or one that was interrupted since, it is
not smaller than before, and it is found. -/
theorem recovered_of_rotations_bounded (codec : BlockCodec β) (events : List (BlockEvent β))
    (s : BlockRun) (hrun : (blockDatabase codec).run events = some s)
    (hbounded : (blockDatabase codec).Keeps (RotationsBounded codec)
      (blockDatabase codec).initial events) :
    Recovered codec s := by
  refine Sound.recovered (Machine.run_invariant_of_keeps hrun hbounded ?_ ?_)
  · exact ⟨⟨_, keeps_make, rfl, rfl⟩, nofun, le_rfl⟩
  · intro event s s' h hevent hstep
    cases event with
    | save full full' block => exact h.save hstep
    | reopen =>
      cases hstep
      exact h.reopen
    | interrupted full full' block done =>
      simp only [blockDatabase] at hstep
      split_ifs at hstep with hfollows
      cases hstep
      exact h.interrupt hfollows hevent

end Run

/-! ### Two runs -/

def numbered : BlockCodec ℕ where
  getBlockID id := id
  getSignature _ := [1]
  serialize id := List.replicate 8 0 ++ 123 :: (decimalText id ++ [62])
  deserialize bytes := .ok (decimalValue ((bytes.drop 9).dropLast))
  head_serialize id := by simp
  last_serialize id := by rw [← List.cons_append, ← List.append_assoc, List.getLast?_concat]
  deserialize_serialize id := by simp [decimalValue_decimalText]

/-- A crash between the two writes of a save, each of which rotates the databases; the block is
saved again after that. -/
def oneCrash : List (BlockEvent ℕ) :=
  [.save false true 1, .interrupted true true 2 3, .save true true 2, .reopen]

theorem recovered_after_oneCrash : ∃ s, (blockDatabase numbered).run oneCrash = some s ∧
    s.recoveredID = 2 ∧ Recovered numbered s := by
  obtain ⟨s, hrun, hid⟩ : ∃ s, (blockDatabase numbered).run oneCrash = some s ∧ s.recoveredID = 2 :=
    Machine.exists_run (by decide +kernel)
  exact ⟨s, hrun, hid, recovered_of_rotations_bounded numbered oneCrash s hrun (by decide +kernel)⟩

/-- The first block is saved. The second is to be saved, but the node crashes between the two
writes; then once more. -/
def twoCrashes : List (BlockEvent ℕ) :=
  [.save false false 1, .interrupted true true 2 3, .interrupted true true 2 3]

theorem nothing_committed_after_two_crashes :
    ∃ s, (blockDatabase numbered).run twoCrashes = some s ∧
      (s.returned = some 1 ∧ s.before = 1 ∧ s.interrupted = [2, 2] ∧ s.recoveredID = 0) ∧
        ¬ Recovered numbered s := by
  obtain ⟨s, hrun, hs⟩ : ∃ s, (blockDatabase numbered).run twoCrashes = some s ∧
      (s.returned = some 1 ∧ s.before = 1 ∧ s.interrupted = [2, 2] ∧ s.recoveredID = 0) :=
    Machine.exists_run (by decide +kernel)
  refine ⟨s, hrun, hs, fun h => ?_⟩
  have hsmaller := h.notSmaller
  rw [hs.2.1, hs.2.2.2] at hsmaller
  exact absurd hsmaller (by decide)

end SkaleConsensus.Db
