import SkaleConsensus.Db.SetStore

/-! The start of a consensus.

The consensus for a block starts from a vector that says which proposals have DA proofs. A
thread that has the last proof that is needed, and one whose time is up, each make such a vector;
the one that stores it in the database starts the consensus. A node that starts again takes the
vector from the database.

It reads the number of the last committed block twice for that: for the key of the vector, and
for the block it starts. If a block is committed in between, the vector of one block is
proposed for the next one. `agree_of_steady` says that nothing else goes wrong. -/
namespace SkaleConsensus.Schain
open Library Db CacheLevelDB

/-! ### The vector -/

/-- The first entry is not used. -/
structure BooleanProposalVector (nodeCount : ℕ) where
  proposals : List Bool
  size_eq : proposals.length = nodeCount + 1

namespace BooleanProposalVector
variable {nodeCount : ℕ}

def ofDAProofs (nodeCount : ℕ) (receivedDAProofs : OrderedMap SchainIndex Bytes) :
    BooleanProposalVector nodeCount where
  proposals := false :: (List.range' 1 nodeCount).map receivedDAProofs.contains
  size_eq := by simp

/-- The value of a character. -/
def ofChar (value : UInt8) : Except String Bool :=
  if value = 49 then return true
  else if value = 48 then return false
  else throw ("Corrupt char in vector:" ++ toString value.toNat)

def ofString (nodeCount : ℕ) (vectorStr : Bytes) :
    Except String (BooleanProposalVector nodeCount) := do
  checkArgument (!vectorStr.isEmpty) "_vectorStr != \"\""
  if hsize : vectorStr.length = nodeCount then
    match hvalues : vectorStr.mapM ofChar with
    | .ok values =>
      return ⟨false :: values, by rw [List.length_cons, (mapM_eq_ok hvalues).1, hsize]⟩
    | .error what => throw what
  else throw "Argument Check failed:_vectorStr.size() == _nodeCount"

def getProposalValue (v : BooleanProposalVector nodeCount) (index : SchainIndex) :
    Except String Bool := do
  checkState (v.proposals.length == nodeCount + 1) "proposals.size() == nodeCount + 1"
  checkState (decide (index ≤ nodeCount)) "_index <= ( uint64_t ) nodeCount"
  checkState (decide (0 < index)) "_index > 0"
  return v.proposals.getD index false

def toString (v : BooleanProposalVector nodeCount) : Bytes :=
  (List.range' 1 nodeCount).map fun i => if v.proposals.getD i false then 49 else 48

/-- The text has all the values. -/
theorem getProposalValue_eq {v w : BooleanProposalVector nodeCount} (h : v.toString = w.toString)
    (index : SchainIndex) : v.getProposalValue index = w.getProposalValue index := by
  unfold getProposalValue
  rw [v.size_eq, w.size_eq]
  by_cases hle : index ≤ nodeCount
  · by_cases hpos : 0 < index
    · have hmem : index ∈ List.range' 1 nodeCount :=
        List.mem_range'_1.mpr ⟨hpos, by rw [Nat.add_comm]; exact Nat.lt_succ_of_le hle⟩
      have hchar := List.map_inj_left.mp h index hmem
      have hvalue : v.proposals.getD index false = w.proposals.getD index false := by
        generalize v.proposals.getD index false = x at hchar ⊢
        generalize w.proposals.getD index false = y at hchar ⊢
        cases x <;> cases y <;> simp_all
      rw [hvalue]
    · rw [decide_eq_false hpos]
      rfl
  · rw [decide_eq_false hle]
    rfl

theorem toString_eq (v : BooleanProposalVector nodeCount) :
    v.toString = v.proposals.tail.map fun p => if p then 49 else 48 := by
  refine List.ext_getElem (by simp [toString, v.size_eq]) fun i hi hi' => ?_
  have hsize : i + 1 < v.proposals.length := by
    rw [List.length_map, List.length_tail] at hi'
    omega
  simp [toString, Nat.add_comm 1 i, hsize]

theorem map_of_mapM_ofChar {vectorStr : Bytes} {values : List Bool}
    (h : vectorStr.mapM ofChar = .ok values) :
    (values.map fun p => if p then (49 : UInt8) else 48) = vectorStr := by
  induction vectorStr generalizing values with
  | nil =>
    cases h
    rfl
  | cons c rest ih =>
    rw [List.mapM_cons] at h
    obtain ⟨value, hvalue, h⟩ := bind_eq_ok.mp h
    obtain ⟨values, hvalues, h⟩ := bind_eq_ok.mp h
    cases h
    rw [List.map_cons, ih hvalues]
    congr 1
    unfold ofChar at hvalue
    split_ifs at hvalue with hone hzero <;> cases hvalue
    · exact hone.symm
    · exact hzero.symm

/-- A vector is read from its own text. -/
theorem toString_of_ofString {vectorStr : Bytes} {v : BooleanProposalVector nodeCount}
    (h : ofString nodeCount vectorStr = .ok v) : v.toString = vectorStr := by
  have h := after_check h
  split_ifs at h with hsize
  split at h
  · next values hvalues =>
    cases h
    rw [toString_eq]
    exact map_of_mapM_ofChar hvalues
  · cases h

end BooleanProposalVector

/-! ### The database -/

/-- `getFormatVersion`, of both databases. -/
def vectorVersion : Bytes := textBytes "1.0"

def vectorKey (blockID : ℕ) : Bytes := createKey vectorVersion [blockID]

/-- Whether the vector was stored, and the database after that. The whole call holds a lock. -/
def trySavingProposalVector {nodeCount : ℕ} (full : Bool) (proposalBlockID : ℕ)
    (proposalVector : BooleanProposalVector nodeCount) (db : CacheLevelDB) :
    Except String (Bool × CacheLevelDB) := do
  let proposalString := proposalVector.toString
  checkState (!proposalString.isEmpty) "!proposalString.empty()"
  let key := vectorKey proposalBlockID
  checkState (!key.isEmpty) "!key.empty()"
  let previous := db.readString key
  if previous.isEmpty then return (true, db.writeString full key proposalString false)
  else return (false, db)

def getVector (nodeCount : ℕ) (db : CacheLevelDB) (blockID : ℕ) :
    Except String (Option (BooleanProposalVector nodeCount)) := do
  let key := vectorKey blockID
  checkState (!key.isEmpty) "!key.empty()"
  let value := db.readString key
  if value.isEmpty then return none
  else
    let v ← BooleanProposalVector.ofString nodeCount value
    return some v

/-! ### Threads -/

/-- Who calls `startConsensus`. -/
inductive Origin where
  | tryStartingConsensus
  | bootstrap
deriving DecidableEq, Repr

/-- What a thread is about to do. -/
inductive Call (nodeCount : ℕ) where
  | addDAProof (thresholdSig : Bytes) (blockID : ℕ) (proposerIndex : SchainIndex)
  | getCurrentProposalVector (blockID : ℕ)
  | tryStartingConsensus (bid : ℕ) (pv : BooleanProposalVector nodeCount)
  /-- The first check of `startConsensus`. -/
  | startConsensus (origin : Origin) (blockID : ℕ)
      (proposalVector : BooleanProposalVector nodeCount)
  /-- Its second check. -/
  | checkFuture (origin : Origin) (blockID : ℕ)
      (proposalVector : BooleanProposalVector nodeCount)
  /-- `ifIncompleteConsensusDetectedRestartAndRebroadcastAllMessagesForCurrentBlock`. -/
  | getVector
  /-- The same, when it has a vector. -/
  | restartConsensus (proposalVector : BooleanProposalVector nodeCount)

namespace Call
variable {nodeCount : ℕ}

/-- The vector of `b` that the thread starts a consensus with. -/
def vectorFor (lastCommittedBlockID b : ℕ) :
    Call nodeCount → Option (BooleanProposalVector nodeCount)
  | .startConsensus _ blockID v | .checkFuture _ blockID v => if blockID = b then some v else none
  | .restartConsensus v => if lastCommittedBlockID + 1 = b then some v else none
  | _ => none

/-- Whether the vector of `b` was stored by this call. -/
def hasSaved (b : ℕ) : Call nodeCount → Bool
  | .startConsensus origin blockID _ | .checkFuture origin blockID _ =>
    origin == .tryStartingConsensus && blockID == b
  | _ => false

def savesOther (b : ℕ) : Call nodeCount → Bool
  | .tryStartingConsensus bid _ => bid != b
  | _ => false

def restarts : Call nodeCount → Bool
  | .restartConsensus _ => true
  | _ => false

end Call

structure ConsensusProposalMessage (nodeCount : ℕ) where
  blockID : ℕ
  proposals : BooleanProposalVector nodeCount
  /-- Not in the code: who posted it, and how often the process had been started. -/
  origin : Origin
  lifetime : ℕ

structure Starter (nodeCount : ℕ) where
  lastCommittedBlockID : ℕ
  /-- The last block in the block database. -/
  lastSaved : ℕ
  daProofDB : CacheLevelDB
  proposalVectorDB : CacheLevelDB
  calls : List (Call nodeCount)
  /-- Not in the code: the messages that were posted, and how often the process was started. -/
  posted : List (ConsensusProposalMessage nodeCount)
  lifetime : ℕ

namespace Starter
variable {nodeCount : ℕ}

def call (s : Starter nodeCount) (c : Call nodeCount) : Starter nodeCount :=
  {s with calls := s.calls ++ [c]}

/-- `addDAProof`, and what its caller does then. -/
def addDAProof (s : Starter nodeCount) (full : Bool) (thresholdSig : Bytes) (blockID : ℕ)
    (proposerIndex : SchainIndex) : Starter nodeCount :=
  match (CacheLevelDB.writeByteArrayToSet vectorVersion nodeCount full thresholdSig blockID
    proposerIndex).run s.daProofDB with
  | .ok (some daProofSet) db =>
    if daProofSet.size = getRequiredSigners nodeCount then
      {s with daProofDB := db}.call
        (.tryStartingConsensus blockID (.ofDAProofs nodeCount daProofSet))
    else {s with daProofDB := db}
  | .ok none db | .error _ db => {s with daProofDB := db}

/-- The next thing that a thread does; an exception ends the call. -/
def advance (s : Starter nodeCount) (full : Bool) : Call nodeCount → Starter nodeCount
  | .addDAProof thresholdSig blockID proposerIndex =>
    s.addDAProof full thresholdSig blockID proposerIndex
  | .getCurrentProposalVector blockID =>
    s.call (.tryStartingConsensus blockID
      (.ofDAProofs nodeCount (s.daProofDB.readSetUnsafe vectorVersion nodeCount blockID)))
  | .tryStartingConsensus bid pv =>
    match trySavingProposalVector full bid pv s.proposalVectorDB with
    | .ok (true, db) =>
      {s with proposalVectorDB := db}.call (.startConsensus .tryStartingConsensus bid pv)
    | .ok (false, _) | .error _ => s
  | .startConsensus origin blockID proposalVector =>
    if blockID ≤ s.lastCommittedBlockID then s
    else s.call (.checkFuture origin blockID proposalVector)
  | .checkFuture origin blockID proposalVector =>
    if s.lastCommittedBlockID + 1 < blockID then s
    else {s with posted := s.posted ++ [⟨blockID, proposalVector, origin, s.lifetime⟩]}
  | .getVector =>
    match Schain.getVector nodeCount s.proposalVectorDB (s.lastCommittedBlockID + 1) with
    | .ok (some proposalVector) => s.call (.restartConsensus proposalVector)
    | .ok none | .error _ => s
  | .restartConsensus proposalVector =>
    s.call (.startConsensus .bootstrap (s.lastCommittedBlockID + 1) proposalVector)

end Starter

inductive StartEvent where
  | daProofArrived (thresholdSig : Bytes) (blockID : ℕ) (proposerIndex : SchainIndex)
  | blockProposalReceiptTimeoutArrived (blockID : ℕ)
  /-- A thread goes on; `full` if the database that it writes to is. -/
  | proceed (thread : ℕ) (full : Bool)
  /-- The next block is saved, and then committed. -/
  | saveBlock
  | commit
  | restart
deriving DecidableEq, Repr

def starter (nodeCount : ℕ) : Machine (Starter nodeCount) StartEvent where
  initial := ⟨0, 0, .make ∅, .make ∅, [.getVector], [], 0⟩
  step
    | .daProofArrived thresholdSig blockID proposerIndex, s =>
      some (if blockID ≤ s.lastCommittedBlockID then s
        else s.call (.addDAProof thresholdSig blockID proposerIndex))
    | .blockProposalReceiptTimeoutArrived blockID, s =>
      some (if blockID ≤ s.lastCommittedBlockID then s
        else s.call (.getCurrentProposalVector blockID))
    | .proceed thread full, s =>
      s.calls[thread]?.map fun c => {s with calls := s.calls.eraseIdx thread}.advance full c
    | .saveBlock, s =>
      if s.lastSaved = s.lastCommittedBlockID then some {s with lastSaved := s.lastSaved + 1}
      else none
    | .commit, s =>
      if s.lastSaved = s.lastCommittedBlockID + 1 then
        some {s with lastCommittedBlockID := s.lastSaved}
      else none
    | .restart, s =>
      some ⟨s.lastSaved, s.lastSaved, .make s.daProofDB.directories,
        .make s.proposalVectorDB.directories, [.getVector], s.posted, s.lifetime + 1⟩

/-- `tryStartingConsensus` posts at most one message for the block in a lifetime, and in the next
ones the message for it has the same values. -/
def Starter.Agree {nodeCount : ℕ} (s : Starter nodeCount) (b : ℕ) : Prop :=
  (∀ lifetime, (s.posted.filter fun m =>
    m.blockID = b ∧ m.origin = .tryStartingConsensus ∧ m.lifetime = lifetime).length ≤ 1) ∧
  ∀ m ∈ s.posted, ∀ m' ∈ s.posted, m.blockID = b → m'.blockID = b → m.lifetime < m'.lifetime →
    ∀ index, m'.proposals.getProposalValue index = m.proposals.getProposalValue index

/-- No block is committed between the two times that the number of the last one is read, and the
vector of another block does not take the place of that of `b`. -/
def StartEvent.Steady {nodeCount : ℕ} (b : ℕ) : StartEvent → Starter nodeCount → Prop
  | .commit, s => ∀ c ∈ s.calls, c.restarts = false
  | .proceed thread full, s =>
    full = true → ∀ c ∈ s.calls[thread]?, c.savesOther b = true →
      (s.proposalVectorDB.db 3).lookup (vectorKey b) = none
  | _, _ => True

/-! ### The vector in the database -/

section Database
variable {nodeCount : ℕ} {db db' : CacheLevelDB} {full : Bool}

/-- A vector is stored where no other one is. -/
theorem trySavingProposalVector_eq_ok {bid : ℕ} {pv : BooleanProposalVector nodeCount}
    (h : trySavingProposalVector full bid pv db = .ok (true, db')) :
    pv.toString ≠ [] ∧ db.readString (vectorKey bid) = [] ∧
      db' = db.writeString full (vectorKey bid) pv.toString false := by
  obtain ⟨hstring, h⟩ := checkState_bind_eq_ok.mp h
  have h := after_check h
  have hnonempty : pv.toString ≠ [] := by simpa using hstring
  dsimp only at h
  split_ifs at h with hprevious
  · cases h
    exact ⟨hnonempty, List.isEmpty_iff.mp hprevious, rfl⟩
  · cases h

theorem getVector_eq_ok {blockID : ℕ} {v : BooleanProposalVector nodeCount}
    (h : getVector nodeCount db blockID = .ok (some v)) :
    db.find (vectorKey blockID) = some v.toString := by
  have h := after_check h
  rw [readString_eq_find] at h
  cases hfind : db.find (vectorKey blockID) with
  | none =>
    rw [hfind] at h
    cases h
  | some text =>
    rw [hfind] at h
    dsimp only at h
    split_ifs at h with hempty
    · cases h
    · obtain ⟨w, hw, h⟩ := bind_eq_ok.mp h
      cases h
      exact congrArg some (BooleanProposalVector.toString_of_ofString hw).symm

end Database

/-! ### The vector that was stored decides -/

/-- Everything that is proposed for `b` is in the database, and at most one call stored it. -/
structure Recorded {nodeCount : ℕ} (b : ℕ) (s : Starter nodeCount) : Prop where
  opened : s.proposalVectorDB.Opened
  nonempty : s.proposalVectorDB.find (vectorKey b) ≠ some []
  calls : ∀ c ∈ s.calls, ∀ v ∈ c.vectorFor s.lastCommittedBlockID b,
    s.proposalVectorDB.find (vectorKey b) = some v.toString
  posted : ∀ m ∈ s.posted, m.blockID = b →
    s.proposalVectorDB.find (vectorKey b) = some m.proposals.toString
  once : s.calls.countP (Call.hasSaved b) +
    s.posted.countP (fun m => m.blockID = b ∧ m.origin = .tryStartingConsensus) ≤ 1

section Recorded
variable {nodeCount b : ℕ} {s s' : Starter nodeCount} {c c' : Call nodeCount} {full : Bool}
  {pv : BooleanProposalVector nodeCount}

theorem recorded_initial : Recorded b (starter nodeCount).initial where
  opened := opened_make ∅
  nonempty := nofun
  calls := by simp [starter, Call.vectorFor]
  posted := nofun
  once := by simp [starter, Call.hasSaved]

theorem Recorded.perm {calls : List (Call nodeCount)} (h : Recorded b s)
    (hperm : calls.Perm s.calls) : Recorded b {s with calls} where
  opened := h.opened
  nonempty := h.nonempty
  calls := fun c hc => h.calls c (hperm.mem_iff.mp hc)
  posted := h.posted
  once := by
    rw [hperm.countP_eq]
    exact h.once

/-- A call ends. -/
theorem Recorded.finish (h : Recorded b {s with calls := c :: s.calls}) : Recorded b s where
  opened := h.opened
  nonempty := h.nonempty
  calls := fun c' hc' => h.calls c' (List.mem_cons_of_mem c hc')
  posted := h.posted
  once := by
    have honce := h.once
    simp only [List.countP_cons] at honce
    omega

/-- A call begins that has not stored the vector of `b`. -/
theorem Recorded.begin (h : Recorded b s) (hvector : ∀ v ∈ c.vectorFor s.lastCommittedBlockID b,
      s.proposalVectorDB.find (vectorKey b) = some v.toString)
    (hsaved : c.hasSaved b = false) : Recorded b (s.call c) where
  opened := h.opened
  nonempty := h.nonempty
  calls := by
    intro c' hc'
    rcases List.mem_append.mp hc' with hc' | hc'
    · exact h.calls c' hc'
    · rw [List.mem_singleton.mp hc']
      exact hvector
  posted := h.posted
  once := by
    have honce := h.once
    simpa [Starter.call, List.countP_append, hsaved] using honce

/-- As long as nothing is stored, no consensus was started. -/
theorem Recorded.none_started (h : Recorded b s)
    (hnone : s.proposalVectorDB.find (vectorKey b) = none) :
    s.calls.countP (Call.hasSaved b) +
      s.posted.countP (fun m => m.blockID = b ∧ m.origin = .tryStartingConsensus) = 0 := by
  rw [Nat.add_eq_zero_iff, List.countP_eq_zero, List.countP_eq_zero]
  constructor
  · intro c hc hsaved
    obtain ⟨v, hv⟩ : ∃ v, c.vectorFor s.lastCommittedBlockID b = some v := by
      cases c <;> simp_all [Call.hasSaved, Call.vectorFor]
    exact absurd (h.calls c hc v hv) (by simp [hnone])
  · intro m hm hsaved
    exact absurd (h.posted m hm (of_decide_eq_true hsaved).1) (by simp [hnone])

/-- The call that stores the vector of `b`. -/
theorem Recorded.save (h : Recorded b s) (hstring : pv.toString ≠ [])
    (hnone : s.proposalVectorDB.find (vectorKey b) = none) :
    Recorded b ({s with proposalVectorDB :=
      s.proposalVectorDB.writeString full (vectorKey b) pv.toString false}.call
        (.startConsensus .tryStartingConsensus b pv)) := by
  have hfind : (s.proposalVectorDB.writeString full (vectorKey b) pv.toString false).find
      (vectorKey b) = some pv.toString := by
    rw [writeString_of_find_eq_none h.opened hnone,
      find_put (opened_rotateDBsIfNeeded h.opened full), if_pos rfl]
  have hzero := h.none_started hnone
  refine ⟨opened_writeString h.opened _ _ _, ?_, ?_, ?_, ?_⟩
  · exact hfind.trans_ne (by simpa using hstring)
  · intro c hc v hv
    rcases List.mem_append.mp hc with hc | hc
    · exact absurd (h.calls c hc v hv) (by simp [hnone])
    · rw [List.mem_singleton.mp hc] at hv
      simp only [Call.vectorFor, if_pos] at hv
      cases hv
      exact hfind
  · intro m hm hb
    exact absurd (h.posted m hm hb) (by simp [hnone])
  · simp only [Starter.call, List.countP_append, List.countP_singleton] at hzero ⊢
    split_ifs <;> omega

/-- A call that stores the vector of another block. -/
theorem Recorded.saveOther (h : Recorded b s) {bid : ℕ} (hne : bid ≠ b)
    (hold : full = true → (s.proposalVectorDB.db 3).lookup (vectorKey b) = none) :
    Recorded b {s with proposalVectorDB :=
      s.proposalVectorDB.writeString full (vectorKey bid) pv.toString false} := by
  have hkey : vectorKey b ≠ vectorKey bid := fun heq =>
    hne (List.singleton_injective (createKey_injective heq)).symm
  have hfind : (s.proposalVectorDB.writeString full (vectorKey bid) pv.toString false).find
      (vectorKey b) = s.proposalVectorDB.find (vectorKey b) :=
    find_writeString_of_ne h.opened hkey hold
  exact ⟨opened_writeString h.opened _ _ _, hfind.trans_ne h.nonempty,
    fun c hc v hv => hfind.trans (h.calls c hc v hv), fun m hm hb => hfind.trans (h.posted m hm hb),
    h.once⟩

theorem Recorded.addDAProof (h : Recorded b s) (thresholdSig : Bytes) (blockID : ℕ)
    (proposerIndex : SchainIndex) :
    Recorded b (s.addDAProof full thresholdSig blockID proposerIndex) := by
  have hdb : ∀ db, Recorded b {s with daProofDB := db} := fun _ =>
    ⟨h.opened, h.nonempty, h.calls, h.posted, h.once⟩
  unfold Starter.addDAProof
  split
  · split
    · exact (hdb _).begin (by simp [Call.vectorFor]) rfl
    · exact hdb _
  · exact hdb _
  · exact hdb _

/-- `trySavingProposalVector` decides which of the threads starts the consensus. -/
theorem Recorded.tryStart (h : Recorded b s) {bid : ℕ}
    (hold : full = true → bid ≠ b → (s.proposalVectorDB.db 3).lookup (vectorKey b) = none) :
    Recorded b (s.advance full (.tryStartingConsensus bid pv)) := by
  simp only [Starter.advance]
  split
  · next db hsaved =>
    obtain ⟨hstring, hprevious, rfl⟩ := trySavingProposalVector_eq_ok hsaved
    by_cases hbid : bid = b
    · subst hbid
      refine h.save hstring ?_
      rw [readString_eq_find] at hprevious
      cases hfind : s.proposalVectorDB.find (vectorKey bid) with
      | none => rfl
      | some text =>
        rw [hfind] at hprevious
        exact absurd (hfind.trans (congrArg some hprevious)) h.nonempty
    · refine (h.saveOther hbid fun hfull => hold hfull hbid).begin ?_ ?_
      · simp [Call.vectorFor, hbid]
      · simp [Call.hasSaved, hbid]
  · exact h
  · exact h

/-- What a thread does next. -/
theorem Recorded.advance (h : Recorded b {s with calls := c :: s.calls})
    (hold : full = true → c.savesOther b = true →
      (s.proposalVectorDB.db 3).lookup (vectorKey b) = none) :
    Recorded b (s.advance full c) := by
  cases c with
  | addDAProof thresholdSig blockID proposerIndex => exact h.finish.addDAProof _ _ _
  | getCurrentProposalVector blockID => exact h.finish.begin (by simp [Call.vectorFor]) rfl
  | tryStartingConsensus bid pv =>
    exact h.finish.tryStart fun hfull hbid => hold hfull (bne_iff_ne.mpr hbid)
  | startConsensus origin blockID v =>
    simp only [Starter.advance]
    split
    · exact h.finish
    · -- the same call, at its second check
      have hsame : Recorded b {s with calls := .checkFuture origin blockID v :: s.calls} :=
        ⟨h.opened, h.nonempty, List.forall_mem_cons.mpr (List.forall_mem_cons.mp h.calls),
          h.posted, h.once⟩
      exact hsame.perm (List.perm_append_singleton _ _)
  | checkFuture origin blockID v =>
    simp only [Starter.advance]
    split
    · exact h.finish
    · have hsaved : (Call.checkFuture origin blockID v).hasSaved b =
          decide (blockID = b ∧ origin = .tryStartingConsensus) := by
        simp [Call.hasSaved, Bool.and_comm, beq_eq_decide]
      have honce := h.once
      simp only [List.countP_cons, hsaved] at honce
      refine ⟨h.opened, h.nonempty, h.finish.calls, ?_, ?_⟩
      · intro m hm hb
        rcases List.mem_append.mp hm with hm | hm
        · exact h.posted m hm hb
        · rw [List.mem_singleton.mp hm] at hb ⊢
          exact h.calls _ List.mem_cons_self v (if_pos hb)
      · simp only [List.countP_append, List.countP_singleton]
        omega
  | getVector =>
    simp only [Starter.advance]
    split
    · next v hv =>
      refine h.finish.begin ?_ rfl
      intro w hw
      obtain ⟨hb, rfl⟩ : s.lastCommittedBlockID + 1 = b ∧ v = w := by
        simpa [Call.vectorFor] using hw
      exact hb ▸ getVector_eq_ok hv
    · exact h.finish
    · exact h.finish
  | restartConsensus v =>
    exact h.finish.begin (h.calls (.restartConsensus v) List.mem_cons_self) rfl

theorem Recorded.step (h : Recorded b s) {event : StartEvent} (hsteady : event.Steady b s)
    (hstep : (starter nodeCount).step event s = some s') : Recorded b s' := by
  cases event with
  | daProofArrived thresholdSig blockID proposerIndex =>
    cases hstep
    split
    · exact h
    · exact h.begin (by simp [Call.vectorFor]) rfl
  | blockProposalReceiptTimeoutArrived blockID =>
    cases hstep
    split
    · exact h
    · exact h.begin (by simp [Call.vectorFor]) rfl
  | proceed thread full =>
    obtain ⟨c, hc, rfl⟩ := Option.map_eq_some_iff.mp hstep
    obtain ⟨hlt, rfl⟩ := List.getElem?_eq_some_iff.mp hc
    refine (h.perm (List.getElem_cons_eraseIdx_perm hlt)).advance fun hfull hother => ?_
    exact hsteady hfull _ hc hother
  | saveBlock =>
    simp only [starter] at hstep
    split_ifs at hstep
    cases hstep
    exact ⟨h.opened, h.nonempty, h.calls, h.posted, h.once⟩
  | commit =>
    simp only [starter] at hstep
    split_ifs at hstep
    cases hstep
    refine ⟨h.opened, h.nonempty, fun c hc v hv => h.calls c hc v ?_, h.posted, h.once⟩
    -- only a call that restarts a consensus depends on the last block
    have hc := hsteady c hc
    cases c <;> first | exact hv | cases hc
  | restart =>
    cases hstep
    rw [make_of_opened h.opened]
    refine ⟨h.opened, h.nonempty, by simp [Call.vectorFor], h.posted, ?_⟩
    exact le_trans (Nat.add_le_add_right (Nat.zero_le _) _) h.once

end Recorded

/-- In every run in which no block is committed while a node that started again is between the
two times it reads the number of the last one, and no rotation drops the vector of `b`,
`tryStartingConsensus` starts the consensus for `b` at most once, and a node that starts again
proposes the same for `b`. -/
theorem agree_of_steady (nodeCount : ℕ) (events : List StartEvent) (s : Starter nodeCount)
    (hrun : (starter nodeCount).run events = some s) (b : ℕ)
    (hsteady : (starter nodeCount).Keeps (StartEvent.Steady b) (starter nodeCount).initial events) :
    s.Agree b := by
  have h : Recorded b s := Machine.run_invariant_of_keeps hrun hsteady recorded_initial
    fun event s s' hs hc hstep => hs.step hc hstep
  refine ⟨fun lifetime => ?_, fun m hm m' hm' hb hb' _ index => ?_⟩
  · rw [← List.countP_eq_length_filter]
    refine le_trans (List.countP_mono_left fun m _ hm => ?_) (le_trans (Nat.le_add_left _ _) h.once)
    simp only [decide_eq_true_eq] at hm ⊢
    exact ⟨hm.1, hm.2.1⟩
  · refine BooleanProposalVector.getProposalValue_eq ?_ index
    exact Option.some.inj ((h.posted m' hm' hb').symm.trans (h.posted m hm hb))

instance StartEvent.decidableSteady {nodeCount b : ℕ} :
    ∀ (event : StartEvent) (s : Starter nodeCount), Decidable (event.Steady b s)
  | .commit, _ => inferInstanceAs (Decidable (∀ c ∈ _, _))
  | .proceed _ _, _ => inferInstanceAs (Decidable (_ → ∀ c ∈ _, _))
  | .daProofArrived _ _ _, _ | .blockProposalReceiptTimeoutArrived _, _ | .saveBlock, _
  | .restart, _ =>
    inferInstanceAs (Decidable True)

/-- The time is up when one proof has arrived; before that vector is stored, three have. -/
def raceEvents : List StartEvent :=
  [.proceed 0 false, .daProofArrived [1] 1 1, .proceed 0 false,
    .blockProposalReceiptTimeoutArrived 1, .proceed 0 false, .daProofArrived [2] 1 2,
    .proceed 1 false, .daProofArrived [3] 1 3, .proceed 1 false, .proceed 1 false,
    .proceed 0 false, .proceed 0 false, .proceed 0 false,
    .restart, .proceed 0 false, .proceed 0 false, .proceed 0 false, .proceed 0 false]

theorem agree_race :
    ∃ s, (starter 4).run raceEvents = some s ∧
      s.posted.map (fun m => (m.blockID, m.proposals.toString, m.lifetime)) =
        [(1, textBytes "1110", 0), (1, textBytes "1110", 1)] ∧ s.Agree 1 := by
  obtain ⟨s, hrun, hposted⟩ : ∃ s, (starter 4).run raceEvents = some s ∧
      s.posted.map (fun m => (m.blockID, m.proposals.toString, m.lifetime)) =
        [(1, textBytes "1110", 0), (1, textBytes "1110", 1)] :=
    Machine.exists_run (by decide +kernel)
  exact ⟨s, hrun, hposted, agree_of_steady 4 raceEvents s hrun 1 (by decide +kernel)⟩

/-- The vector of block 1 is stored. The node starts again and reads it, and catchup commits block
1; so the vector is proposed for block 2. The node starts once more, and has a proof for block 2
when the time is up. -/
def tornEvents : List StartEvent :=
  [.blockProposalReceiptTimeoutArrived 1, .proceed 1 false, .proceed 1 false,
    .restart, .proceed 0 false, .saveBlock, .commit, .proceed 0 false, .proceed 0 false,
    .proceed 0 false,
    .restart, .proceed 0 false, .daProofArrived [1] 2 1, .proceed 0 false,
    .blockProposalReceiptTimeoutArrived 2, .proceed 0 false, .proceed 0 false, .proceed 0 false,
    .proceed 0 false]

theorem other_values_after_restart :
    ∃ s, (starter 4).run tornEvents = some s ∧ s.lastCommittedBlockID = 1 ∧
      s.posted.map (fun m => (m.blockID, m.proposals.toString, m.lifetime)) =
        [(2, textBytes "0000", 1), (2, textBytes "1000", 2)] ∧ ¬ s.Agree 2 := by
  obtain ⟨s, hrun, hlast, hposted, hvalue⟩ : ∃ s, (starter 4).run tornEvents = some s ∧
      s.lastCommittedBlockID = 1 ∧
      s.posted.map (fun m => (m.blockID, m.proposals.toString, m.lifetime)) =
        [(2, textBytes "0000", 1), (2, textBytes "1000", 2)] ∧
      ∃ m ∈ s.posted, ∃ m' ∈ s.posted, m.blockID = 2 ∧ m'.blockID = 2 ∧ m.lifetime < m'.lifetime ∧
        m'.proposals.getProposalValue 1 ≠ m.proposals.getProposalValue 1 :=
    Machine.exists_run (by decide +kernel)
  refine ⟨s, hrun, hlast, hposted, fun hagree => ?_⟩
  obtain ⟨m, hm, m', hm', hb, hb', hlifetime, hne⟩ := hvalue
  exact hne (hagree.2 m hm m' hm' hb hb' hlifetime 1)

end SkaleConsensus.Schain
