import SkaleConsensus.Db.BlockDB

/-! Replaying blocks when a node starts.

At a start the consensus database may be ahead of the external face, by at most 128 blocks. The
blocks between are read from the database and pushed one by one. The loop goes on to the next
block only after a push; whatever is thrown before is swallowed and the same block is tried
again.

If every block in between can be read, the loop ends after one round for each. If one of them
cannot, no other thread of the node can supply it, and the loop never ends
(`replay_completes_iff`). -/
namespace SkaleConsensus.Schain
open Library Db BlockDB

/-- What the loop calls. -/
structure ReplayLibrary (β E : Type) where
  codec : BlockCodec β
  getTimeStampS : β → ℕ
  getTimeStampMs : β → ℕ
  /-- What becomes of the external face. -/
  pushBlockToExtFace : β → E → Except String E

/-- The variables of `bootstrap`, with the blocks whose push returned. -/
structure Replay (β E : Type) where
  blockDB : BlockDB
  lastCommittedBlockID : ℕ
  lastCommittedBlockTimeStamp : ℕ
  lastCommittedBlockTimeStampMs : ℕ
  extFace : E
  pushed : List β

section Code
variable {β E : Type} (lib : ReplayLibrary β E)

def getBlock (blockID : ℕ) : EStateM String (Replay β E) (Option β) := fun s =>
  match (BlockDB.getBlock lib.codec blockID).run s.blockDB with
  | .ok block db => .ok block {s with blockDB := db}
  | .error e db => .error e {s with blockDB := db}

/-- `bootstrap` up to the loop; what is returned is the last block id in consensus. -/
def beforeReplay : EStateM String (Replay β E) ℕ := do
  let s ← get
  let lastCommittedBlockIDInConsensus := s.blockDB.readLastCommittedBlockID
  if lastCommittedBlockIDInConsensus > (s.lastCommittedBlockID + 128) % 2 ^ 64 then
    throw "_lastCommittedBlockIDInConsensus > _lastCommittedBlockID + 128"
  else if lastCommittedBlockIDInConsensus < s.lastCommittedBlockID then
    throw "_lastCommittedBlockIDInConsensus < lastCommittedBlockID in EVM"
  else if s.lastCommittedBlockTimeStampMs = 0 ∧ 0 < s.lastCommittedBlockID then
    match ← getBlock lib s.lastCommittedBlockID with
    | some block =>
      modify fun s => {s with lastCommittedBlockTimeStampMs := lib.getTimeStampMs block}
      return lastCommittedBlockIDInConsensus
    | none => return lastCommittedBlockIDInConsensus
  else return lastCommittedBlockIDInConsensus

/-- The body of the loop, inside its `try`. -/
def replayBlock : EStateM String (Replay β E) Unit := do
  let s ← get
  match ← getBlock lib (s.lastCommittedBlockID + 1) with
  | none => throw "Check failed::block:No block in consensus, repair needed"
  | some block =>
    let s ← get
    match lib.pushBlockToExtFace block s.extFace with
    | .error e => throw e
    | .ok extFace =>
      set {s with
        extFace
        pushed := s.pushed ++ [block]
        lastCommittedBlockID := s.lastCommittedBlockID + 1
        lastCommittedBlockTimeStamp := lib.getTimeStampS block
        lastCommittedBlockTimeStampMs := lib.getTimeStampMs block }

/-- The loop, if it ends within so many rounds. -/
def replayLoop (lastInConsensus : ℕ) : ℕ → Replay β E → Option (Replay β E)
  | 0, s => if s.lastCommittedBlockID < lastInConsensus then none else some s
  | rounds + 1, s =>
    if s.lastCommittedBlockID < lastInConsensus then
      replayLoop lastInConsensus rounds (finalState (replayBlock lib) s)
    else some s

end Code

/-! ### What a block is read as -/

section Stored
variable {β : Type} (codec : BlockCodec β)

/-- What `BlockDB.getBlock` returns or throws. -/
def outcome (db : BlockDB) (blockID : ℕ) : Except String (Option β) :=
  match db.blockCache.get? blockID with
  | some serializedBlock => (codec.deserialize serializedBlock).map some
  | none =>
    let value := db.db.readString (createBlockKey blockID)
    if value.isEmpty then .ok none
    else do
      serializedSanityCheck value
      (codec.deserialize value).map some

def stored (db : BlockDB) (blockID : ℕ) : Option β := (outcome codec db blockID).toOption.join

/-- A lookup moves the block to the front of the cache. -/
def looked (db : BlockDB) (blockID : ℕ) : BlockDB :=
  {db with blockCache := db.blockCache.touch blockID}

/-- What is read does not depend on what was read before. -/
@[simp] theorem stored_looked (db : BlockDB) (id : ℕ) :
    stored codec (looked db id) = stored codec db := by
  funext id'
  simp [stored, outcome, looked]

theorem run_getBlock (db : BlockDB) (blockID : ℕ) :
    (BlockDB.getBlock codec blockID).run db =
      match outcome codec db blockID with
      | .ok block => .ok block (looked db blockID)
      | .error e => .error e (looked db blockID) := by
  unfold BlockDB.getBlock getSerializedBlockFromLevelDB outcome looked LruCache.touch
  rw [bind_assoc, run_get_bind]
  cases hcache : db.blockCache.get? blockID with
  | some serializedBlock =>
    dsimp only
    show EStateM.run (match codec.deserialize serializedBlock with
      | .error e => throw e
      | .ok block => pure (some block)) _ = _
    cases codec.deserialize serializedBlock <;> rfl
  | none =>
    dsimp only
    split_ifs with hempty
    · rfl
    · unfold serializedSanityCheck
      generalize db.db.readString (createBlockKey blockID) = value
      cases value[8]? == some 123 with
      | false => rfl
      | true => cases value.getLast? == some 62 with
        | false => rfl
        | true =>
          show EStateM.run (match codec.deserialize value with
            | .error e => throw e
            | .ok block => pure (some block)) _ = _
          cases codec.deserialize value <;> rfl

end Stored

/-! ### Rounds -/

section Rounds
variable {β E : Type} {lib : ReplayLibrary β E} {s : Replay β E} {last : ℕ}

theorem run_getBlock_replay (s : Replay β E) (blockID : ℕ) :
    (getBlock lib blockID).run s =
      match outcome lib.codec s.blockDB blockID with
      | .ok block => .ok block {s with blockDB := looked s.blockDB blockID}
      | .error e => .error e {s with blockDB := looked s.blockDB blockID} := by
  show (match (BlockDB.getBlock lib.codec blockID).run s.blockDB with
    | .ok block db => EStateM.Result.ok block {s with blockDB := db}
    | .error e db => .error e {s with blockDB := db}) = _
  rw [run_getBlock]
  cases outcome lib.codec s.blockDB blockID <;> rfl

theorem finalState_replayBlock_of_not_stored
    (h : stored lib.codec s.blockDB (s.lastCommittedBlockID + 1) = none) :
    finalState (replayBlock lib) s =
      {s with blockDB := looked s.blockDB (s.lastCommittedBlockID + 1)} := by
  have hread : (getBlock lib (s.lastCommittedBlockID + 1)).run s = _ := run_getBlock_replay s _
  have hget : (get : EStateM String (Replay β E) _).run s = .ok s s := rfl
  unfold stored at h
  unfold replayBlock
  rw [finalState_bind_of_ok hget]
  cases ho : outcome lib.codec s.blockDB (s.lastCommittedBlockID + 1) with
  | ok block =>
    rw [ho] at h hread
    cases block with
    | some block => cases h
    | none =>
      rw [finalState_bind_of_ok hread]
      rfl
  | error e =>
    rw [ho] at hread
    exact finalState_bind_of_error hread

/-- What `beforeReplay` accepts. -/
theorem beforeReplay_eq_ok {s' : Replay β E} (hbound : s.lastCommittedBlockID < 2 ^ 64)
    (h : (beforeReplay lib).run s = .ok last s') :
    s.lastCommittedBlockID ≤ last ∧ last - s.lastCommittedBlockID ≤ 128 ∧
      s'.lastCommittedBlockID = s.lastCommittedBlockID ∧ s'.pushed = s.pushed ∧
      stored lib.codec s'.blockDB = stored lib.codec s.blockDB := by
  unfold beforeReplay at h
  rw [run_get_bind] at h
  dsimp only at h
  split_ifs at h with hahead hbehind hms
  · cases h
  · cases h
  · obtain ⟨block, mid, hread, hrest⟩ := run_bind_eq_ok.mp h
    rw [run_getBlock_replay] at hread
    cases ho : outcome lib.codec s.blockDB s.lastCommittedBlockID with
    | error e =>
      rw [ho] at hread
      cases hread
    | ok block' =>
      rw [ho] at hread
      cases hread
      cases block <;> cases hrest <;>
        exact ⟨by omega, by omega, rfl, rfl, stored_looked _ _ _⟩
  · cases h
    exact ⟨by omega, by omega, rfl, rfl, rfl⟩

variable (hpush : ∀ block extFace, ∃ extFace', lib.pushBlockToExtFace block extFace = .ok extFace')
include hpush

theorem finalState_replayBlock_of_stored {block : β}
    (h : stored lib.codec s.blockDB (s.lastCommittedBlockID + 1) = some block) :
    ∃ extFace, finalState (replayBlock lib) s =
      {s with
        blockDB := looked s.blockDB (s.lastCommittedBlockID + 1)
        extFace
        pushed := s.pushed ++ [block]
        lastCommittedBlockID := s.lastCommittedBlockID + 1
        lastCommittedBlockTimeStamp := lib.getTimeStampS block
        lastCommittedBlockTimeStampMs := lib.getTimeStampMs block } := by
  have houtcome : outcome lib.codec s.blockDB (s.lastCommittedBlockID + 1) = .ok (some block) := by
    unfold stored at h
    cases ho : outcome lib.codec s.blockDB (s.lastCommittedBlockID + 1) with
    | ok block' =>
      rw [ho] at h
      exact congrArg _ h
    | error e =>
      rw [ho] at h
      cases h
  have hread : (getBlock lib (s.lastCommittedBlockID + 1)).run s =
      .ok (some block) {s with blockDB := looked s.blockDB (s.lastCommittedBlockID + 1)} := by
    rw [run_getBlock_replay, houtcome]
  obtain ⟨extFace, hext⟩ := hpush block s.extFace
  refine ⟨extFace, finalState_of_ok (a := ()) ?_⟩
  unfold replayBlock
  rw [run_get_bind, run_bind_of_ok hread]
  dsimp only
  rw [run_get_bind]
  dsimp only
  rw [hext]
  rfl

/-- A block that cannot be read is never passed. -/
theorem replayLoop_eq_none {id : ℕ} (hlast : id ≤ last) (rounds : ℕ) {s : Replay β E}
    (hid : s.lastCommittedBlockID < id) (h : stored lib.codec s.blockDB id = none) :
    replayLoop lib last rounds s = none := by
  induction rounds generalizing s with
  | zero => exact if_pos (hid.trans_le hlast)
  | succ rounds ih =>
    rw [replayLoop, if_pos (hid.trans_le hlast)]
    cases hnext : stored lib.codec s.blockDB (s.lastCommittedBlockID + 1) with
    | none =>
      rw [finalState_replayBlock_of_not_stored hnext]
      exact ih hid (by simpa using h)
    | some block =>
      obtain ⟨extFace, hstate⟩ := finalState_replayBlock_of_stored hpush hnext
      have hne : s.lastCommittedBlockID + 1 ≠ id := by
        rintro rfl
        cases hnext.symm.trans h
      rw [hstate]
      exact ih (by dsimp only; omega) (by simpa using h)

theorem replayLoop_eq_some {rounds : ℕ} {s : Replay β E}
    (hlast : s.lastCommittedBlockID + rounds = last)
    (h : ∀ id, s.lastCommittedBlockID < id → id ≤ last →
      (stored lib.codec s.blockDB id).isSome = true) :
    ∃ s', replayLoop lib last rounds s = some s' ∧
      ∃ blocks, s'.pushed = s.pushed ++ blocks ∧
        blocks.map some =
          (List.range' (s.lastCommittedBlockID + 1) rounds).map (stored lib.codec s.blockDB) := by
  induction rounds generalizing s with
  | zero => exact ⟨s, if_neg (by omega), [], (List.append_nil _).symm, rfl⟩
  | succ rounds ih =>
    obtain ⟨block, hblock⟩ := Option.isSome_iff_exists.mp
      (h (s.lastCommittedBlockID + 1) (by omega) (by omega))
    obtain ⟨extFace, hstate⟩ := finalState_replayBlock_of_stored hpush hblock
    rw [replayLoop, if_pos (by omega), hstate]
    obtain ⟨s', hloop, blocks, hpushed, hblocks⟩ := ih (s := {s with
        blockDB := looked s.blockDB (s.lastCommittedBlockID + 1)
        extFace
        pushed := s.pushed ++ [block]
        lastCommittedBlockID := s.lastCommittedBlockID + 1
        lastCommittedBlockTimeStamp := lib.getTimeStampS block
        lastCommittedBlockTimeStampMs := lib.getTimeStampMs block }) (by dsimp only; omega)
      (fun id hlt hle => by simpa using h id (by dsimp only at hlt; omega) hle)
    refine ⟨s', hloop, block :: blocks, ?_, ?_⟩
    · simpa using hpushed
    · simpa [List.range'_succ, hblock] using hblocks

end Rounds

/-- The loop ends after one round for each block that the external face misses, of which there are
at most 128, and has pushed the first of them in their order. -/
def ReplayCompletes {β E : Type} (lib : ReplayLibrary β E) (last : ℕ) (s : Replay β E) : Prop :=
  last - s.lastCommittedBlockID ≤ 128 ∧
    ∃ s', replayLoop lib last (last - s.lastCommittedBlockID) s = some s' ∧
      ∃ blocks, s'.pushed = s.pushed ++ blocks ∧ blocks.map some <+:
        (List.range' (s.lastCommittedBlockID + 1) (last - s.lastCommittedBlockID)).map
          (stored lib.codec s.blockDB)

/-- **The replay completes exactly if every block that is missed can be read.** -/
theorem replay_completes_iff {β E : Type} (lib : ReplayLibrary β E)
    (hpush : ∀ block extFace, ∃ extFace', lib.pushBlockToExtFace block extFace = .ok extFace')
    (s s' : Replay β E) (hid : s.lastCommittedBlockID < 2 ^ 64) (last : ℕ)
    (hbefore : (beforeReplay lib).run s = .ok last s') :
    ReplayCompletes lib last s' ↔ ∀ id, s.lastCommittedBlockID < id → id ≤ last →
      (stored lib.codec s.blockDB id).isSome = true := by
  obtain ⟨hle, hbound, hsame, -, hstored⟩ := beforeReplay_eq_ok hid hbefore
  rw [← hsame, ← hstored]
  rw [← hsame] at hle hbound
  constructor
  · rintro ⟨-, s'', hloop, -⟩ id hlt hlast
    cases hread : stored lib.codec s'.blockDB id with
    | some block => rfl
    | none =>
      rw [replayLoop_eq_none hpush hlast _ hlt hread] at hloop
      cases hloop
  · intro h
    obtain ⟨s'', hloop, blocks, hpushed, hblocks⟩ :=
      replayLoop_eq_some hpush (Nat.add_sub_cancel' hle) h
    exact ⟨hbound, s'', hloop, blocks, hpushed, hblocks ▸ List.prefix_refl _⟩

/-! ### Two starts -/

/-- Blocks that are their ids, and an external face that takes every one. -/
def numberedReplay : ReplayLibrary ℕ ℕ where
  codec := numbered
  getTimeStampS _ := 1
  getTimeStampMs _ := 1
  pushBlockToExtFace id _ := .ok id

/-- A node starts whose external face has no block; its database holds these, and the last of the
ids that are given as the last committed one. -/
def startOf (blocks : List ℕ) (last : ℕ) : Replay ℕ ℕ where
  blockDB := { BlockDB.make ∅ with
    db := (blocks.foldl (fun (db : CacheLevelDB) id =>
        db.put (createBlockKey id) (numbered.serialize id)) (.make ∅)).put
      createLastCommittedKey (decimalText last) }
  lastCommittedBlockID := 0
  lastCommittedBlockTimeStamp := 0
  lastCommittedBlockTimeStampMs := 0
  extFace := 0
  pushed := []

theorem beforeReplay_startOf {blocks : List ℕ} {last : ℕ} (hle : last ≤ 128)
    (h : (startOf blocks last).blockDB.readLastCommittedBlockID = last) :
    (beforeReplay numberedReplay).run (startOf blocks last) = .ok last (startOf blocks last) := by
  have hzero : (startOf blocks last).lastCommittedBlockID = 0 := rfl
  unfold beforeReplay
  rw [run_get_bind]
  dsimp only
  rw [h, hzero, if_neg (by omega), if_neg (Nat.not_lt_zero last),
    if_neg fun hms => Nat.lt_irrefl 0 hms.2]
  rfl

theorem replay_completes_all :
    ∃ s, (beforeReplay numberedReplay).run (startOf [1, 2] 2) = .ok 2 s ∧
      ReplayCompletes numberedReplay 2 s := by
  have hbefore : (beforeReplay numberedReplay).run (startOf [1, 2] 2) =
    .ok 2 (startOf [1, 2] 2) := beforeReplay_startOf (by decide) (by decide +kernel)
  have hstored : ∀ id ∈ [1, 2],
      (stored numbered (startOf [1, 2] 2).blockDB id).isSome = true := by
    decide +kernel
  refine ⟨_, hbefore, (replay_completes_iff numberedReplay (fun id _ => ⟨id, rfl⟩) _ _
    (by decide) 2 hbefore).mpr fun id hlt hle => hstored id ?_⟩
  have hpos : 0 < id := hlt
  have hor : id = 1 ∨ id = 2 := by omega
  simpa using hor

/-- The second of three blocks is missing: however many rounds it is given, the loop does not
end. -/
theorem replay_never_ends :
    ∃ s, (beforeReplay numberedReplay).run (startOf [1, 3] 3) = .ok 3 s ∧
      (∀ rounds, replayLoop numberedReplay 3 rounds s = none) ∧
      ¬ ReplayCompletes numberedReplay 3 s := by
  have hbefore : (beforeReplay numberedReplay).run (startOf [1, 3] 3) =
    .ok 3 (startOf [1, 3] 3) := beforeReplay_startOf (by decide) (by decide +kernel)
  have hmissing : stored numberedReplay.codec (startOf [1, 3] 3).blockDB 2 = none := by
    decide +kernel
  have hloop : ∀ rounds, replayLoop numberedReplay 3 rounds (startOf [1, 3] 3) = none :=
    fun rounds => replayLoop_eq_none (fun id _ => ⟨id, rfl⟩) (by decide) rounds (by decide) hmissing
  refine ⟨_, hbefore, hloop, fun ⟨_, s', hends, _⟩ => ?_⟩
  cases (hloop _).symm.trans hends

end SkaleConsensus.Schain
