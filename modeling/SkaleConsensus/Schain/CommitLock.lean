import SkaleConsensus.Block.RoundTrip
import SkaleConsensus.Library.ManualLock

/-! The lock that blocks are committed under.

`blockCommitArrived` and `blockCommitsArrivedThroughCatchup` take `blockProcessMutex` in a block
whose handler resets the priority of the thread and then unlocks the mutex, whatever was thrown.
So the mutex is unlocked by a thread that does not hold it if something is thrown before it was
locked: in the catchup, if the timed lock fails and the node is to exit. And it stays locked if the
priority cannot be reset, since `unbumpPriority` throws then, also in the handler. In every other
case it is unlocked exactly if it was locked (`commitLock_balanced_iff`).

Every call of another function may return or throw as it likes. The two loops that wait, for the
end of `bootstrap` and for the mutex, are followed for any number of rounds. -/
namespace SkaleConsensus.Schain
open Library Block

/-! ### What the functions call -/

inductive Thrown where
  | exitRequested
  | exception (what : String)
deriving DecidableEq, Repr

/-- Why a function has not returned: it has thrown, or it still waits. -/
inductive Stop where
  | thrown (e : Thrown)
  | waiting
deriving DecidableEq, Repr

/-- The thread, and the last committed block, which only changes under the mutex. -/
structure Thread where
  /-- Not in the code: how many calls were made. -/
  step : ℕ
  /-- Not in the code: how often the thread locked and unlocked `blockProcessMutex`. -/
  acquired : ℕ
  unlocked : ℕ
  lastCommittedBlockID : ℕ
  lastCommittedBlockTimeStamp : TimeStamp

/-- What the calls come to; the first argument is how many were made before. -/
structure World where
  getIsStateInitialized : ℕ → Except Thrown Bool
  isExitRequested : ℕ → Except Thrown Bool
  tryLockFor : ℕ → Except Thrown Bool
  getCurrentTimeMs : ℕ → Except Thrown Unit
  log : ℕ → Except Thrown Unit
  /-- `pthread_setschedparam( this_thread, 0, &params ) == 0`. -/
  setschedparam : ℕ → Bool
  getBlockProposal : ℕ → ℕ → SchainIndex → Except Thrown (Option BlockProposal)
  createDefaultEmptyBlockProposal : ℕ → ℕ → Except Thrown (Option BlockProposal)
  makeFromProposal : ℕ → BlockProposal → Except Thrown CommittedBlock
  processCommittedBlock : ℕ → CommittedBlock → Except Thrown Unit
  proposeNextBlock : ℕ → Bool → Except Thrown Unit
  pendingTransactions : ℕ → Except Thrown Unit
  isSyncOnlyNode : Bool
  hasExtFace : Bool

def call {α : Type} (result : ℕ → Except Thrown α) : EStateM Stop Thread α := fun s =>
  match result s.step with
  | .ok a => .ok a {s with step := s.step + 1}
  | .error e => .error (.thrown e) {s with step := s.step + 1}

/-- `CHECK_ARGUMENT` and `CHECK_STATE`. -/
def check (passed : Bool) (what : String) : EStateM Stop Thread Unit :=
  if passed then pure () else throw (.thrown (.exception what))

def unlock : EStateM Stop Thread Unit := modify fun s => {s with unlocked := s.unlocked + 1}

/-- What `catch ( ... )` catches. -/
def caught : Stop → Bool
  | .thrown _ => true
  | .waiting => false

section Functions
variable (w : World)

def tryLockFor : EStateM Stop Thread Bool := do
  let locked ← call w.tryLockFor
  modify fun s => {s with acquired := if locked then s.acquired + 1 else s.acquired}
  return locked

def checkForExit : EStateM Stop Thread Unit := do
  let requested ← call w.isExitRequested
  if requested then throw (.thrown .exitRequested) else pure ()

/-- `bumpPriority` ignores what it calls; this one does not. -/
def unbumpPriority : EStateM Stop Thread Unit := do
  let reset ← call fun step => .ok (w.setschedparam step)
  check reset "State check failed::pthread_setschedparam( this_thread, 0, &params ) == 0"

/-- The loop at the start of both functions. -/
def waitForBootstrap : ℕ → EStateM Stop Thread Unit
  | 0 => throw .waiting
  | rounds + 1 => do
    let initialized ← call w.getIsStateInitialized
    if initialized then pure () else call w.log >>= fun _ => waitForBootstrap rounds

/-- It returns with the mutex locked. -/
def lockWithDeadLockCheck : ℕ → EStateM Stop Thread Bool
  | 0 => throw .waiting
  | rounds + 1 => do
    let locked ← tryLockFor w
    if locked then pure true else call w.log >>= fun _ => lockWithDeadLockCheck rounds

def processCommittedBlock (block : CommittedBlock) : EStateM Stop Thread Unit := do
  call fun step => w.processCommittedBlock step block
  modify fun s => {s with
    lastCommittedBlockID := block.blockID
    lastCommittedBlockTimeStamp := block.getTimeStamp}

/-! ### Commits through catchup -/

/-- The timed lock, and what follows if it fails. -/
def tryToLock : EStateM Stop Thread Bool := do
  let locked ← tryLockFor w
  if locked then pure true
  else do
    checkForExit w
    call w.log
    return false

def commitBlocks : List CommittedBlock → EStateM Stop Thread Unit
  | [] => pure ()
  | block :: rest => do
    checkForExit w
    let s ← get
    if block.blockID = s.lastCommittedBlockID + 1 then do
      check (s.lastCommittedBlockTimeStamp.lt block.getTimeStamp)
        "State check failed::getLastCommittedBlockTimeStamp() < block->getTimeStamp()"
      processCommittedBlock w block
      commitBlocks rest
    else commitBlocks rest

/-- What follows if blocks were committed. -/
def afterCommits : EStateM Stop Thread Unit := do
  call w.log
  if !w.isSyncOnlyNode then call fun step => w.proposeNextBlock step true
  else if w.hasExtFace then call w.pendingTransactions
  else pure ()

/-- With the mutex locked. -/
def commitCaughtUp (blocks : List CommittedBlock) : EStateM Stop Thread ℕ := do
  call w.getCurrentTimeMs
  let s ← get
  check (decide (∀ block ∈ blocks.head?, block.blockID ≤ s.lastCommittedBlockID + 1))
    "State check failed::blocks->at( 0 )->getBlockID() <= ( uint64_t ) getLastCommittedBlockID() + 1"
  commitBlocks w blocks
  call w.getCurrentTimeMs
  let t ← get
  if s.lastCommittedBlockID < t.lastCommittedBlockID then afterCommits w else pure ()
  unbumpPriority w
  unlock
  return t.lastCommittedBlockID - s.lastCommittedBlockID

/-- After the arguments were checked. -/
def beforeCatchup (rounds : ℕ) : EStateM Stop Thread Unit := do
  waitForBootstrap w rounds
  call w.getCurrentTimeMs

def blockCommitsArrivedThroughCatchup (rounds : ℕ) (blockList : Option (List CommittedBlock)) :
    EStateM Stop Thread ℕ :=
  match blockList with
  | none => throw (.thrown (.exception "Argument Check failed:_blockList"))
  | some blocks =>
    if blocks.isEmpty then pure 0
    else do
      beforeCatchup w rounds
      guarded caught (tryToLock w) (commitCaughtUp w blocks) 0 (unbumpPriority w) unlock id

/-! ### Commits by consensus -/

/-- Up to the block with the handler. -/
def beforeCommit (rounds : ℕ) (proposerIndex : SchainIndex) (thresholdSig daSig : Bool) :
    EStateM Stop Thread Unit := do
  check thresholdSig "Argument Check failed:_thresholdSig"
  check (daSig || proposerIndex == 0) "Argument Check failed:_daSig || _proposerIndex == 0"
  waitForBootstrap w rounds
  check (!w.isSyncOnlyNode) "State check failed::!getNode()->isSyncOnlyNode()"
  checkForExit w

def committedProposal (committedBlockID : ℕ) (proposerIndex : SchainIndex) :
    EStateM Stop Thread (Option BlockProposal) :=
  if 0 < proposerIndex then call fun step => w.getBlockProposal step committedBlockID proposerIndex
  else call fun step => w.createDefaultEmptyBlockProposal step committedBlockID

/-- The block is made of the proposal, and processed. -/
def commitProposal (proposal : Option BlockProposal) : EStateM Stop Thread Unit :=
  match proposal with
  | none => throw (.thrown (.exception "State check failed::committedProposal"))
  | some proposal => do
    let newCommittedBlock ← call fun step => w.makeFromProposal step proposal
    let s ← get
    check (s.lastCommittedBlockTimeStamp.lt newCommittedBlock.getTimeStamp)
      "State check failed::getLastCommittedBlockTimeStamp() < newCommittedBlock->getTimeStamp()"
    processCommittedBlock w newCommittedBlock
    call fun step => w.proposeNextBlock step false

/-- With the mutex locked. -/
def commitDecided (committedBlockID : ℕ) (proposerIndex : SchainIndex) :
    EStateM Stop Thread Unit := do
  let s ← get
  if committedBlockID ≤ s.lastCommittedBlockID then unlock
  else do
    check (committedBlockID == s.lastCommittedBlockID + 1 || s.lastCommittedBlockID == 0)
      ("State check failed::_committedBlockID == ( getLastCommittedBlockID() + 1 ) || " ++
        "getLastCommittedBlockID() == 0")
    let proposal ← committedProposal w committedBlockID proposerIndex
    commitProposal w proposal
    unbumpPriority w
    unlock

/-- `catch ( ExitRequestedException& e )` throws it again, `catch ( ... )` another one. -/
def rethrowCommit : Stop → Stop
  | .thrown (.exception _) => .thrown (.exception "blockCommitArrived")
  | e => e

/-- `thresholdSig` and `daSig` say whether the pointers are null. -/
def blockCommitArrived (rounds lockRounds : ℕ) (committedBlockID : ℕ) (proposerIndex : SchainIndex)
    (thresholdSig daSig : Bool) : EStateM Stop Thread Unit := do
  beforeCommit w rounds proposerIndex thresholdSig daSig
  guarded caught (lockWithDeadLockCheck w lockRounds)
    (commitDecided w committedBlockID proposerIndex) () (unbumpPriority w) unlock rethrowCommit

end Functions

/-! ### What the functions do to the lock -/

/-- How often the mutex was locked and unlocked. -/
def counts (s : Thread) : ℕ × ℕ := (s.acquired, s.unlocked)

section Lock
variable {w : World}

theorem quiet_call {α : Type} (result : ℕ → Except Thrown α) : Quiet counts (call result) := by
  intro s
  unfold call finalState EStateM.run
  dsimp only
  cases result s.step <;> rfl

theorem quiet_check (passed : Bool) (what : String) : Quiet counts (check passed what) :=
  .ite (quiet_pure _) (quiet_throw _)

theorem releases_unlock : Releases counts unlock := fun _ => rfl

theorem takes_tryLockFor : Takes counts (tryLockFor w) := by
  intro s
  cases hcall : (call w.tryLockFor).run s with
  | error e t =>
    unfold tryLockFor
    rw [run_bind_of_error hcall]
    exact (quiet_call _).of_error hcall
  | ok locked t =>
    unfold tryLockFor
    rw [run_bind_of_ok hcall]
    have hcount := (quiet_call _).of_ok hcall
    cases locked with
    | true => exact congrArg (fun c : ℕ × ℕ => (c.1 + 1, c.2)) hcount
    | false => exact hcount

theorem quiet_checkForExit : Quiet counts (checkForExit w) :=
  (quiet_call _).bind fun _ => .ite (quiet_throw _) (quiet_pure _)

theorem quiet_unbumpPriority : Quiet counts (unbumpPriority w) :=
  (quiet_call _).bind fun _ => quiet_check _ _

theorem quiet_waitForBootstrap (rounds : ℕ) : Quiet counts (waitForBootstrap w rounds) := by
  induction rounds with
  | zero => exact quiet_throw _
  | succ rounds ih =>
    exact (quiet_call _).bind fun _ => .ite (quiet_pure _) ((quiet_call _).bind fun _ => ih)

theorem quiet_processCommittedBlock (block : CommittedBlock) :
    Quiet counts (processCommittedBlock w block) :=
  (quiet_call _).bind fun _ _ => rfl

theorem quiet_commitBlocks (blocks : List CommittedBlock) :
    Quiet counts (commitBlocks w blocks) := by
  induction blocks with
  | nil => exact quiet_pure _
  | cons block rest ih =>
    refine quiet_checkForExit.bind fun _ => quiet_get_bind fun s => .ite ?_ ih
    exact (quiet_check _ _).bind fun _ => (quiet_processCommittedBlock block).bind fun _ => ih

theorem quiet_afterCommits : Quiet counts (afterCommits w) :=
  (quiet_call _).bind fun _ => .ite (quiet_call _) (.ite (quiet_call _) (quiet_pure _))

theorem quiet_commitProposal (proposal : Option BlockProposal) :
    Quiet counts (commitProposal w proposal) := by
  cases proposal with
  | none => exact quiet_throw _
  | some proposal =>
    refine (quiet_call _).bind fun _ => quiet_get_bind fun s => (quiet_check _ _).bind fun _ => ?_
    exact (quiet_processCommittedBlock _).bind fun _ => quiet_call _

theorem releases_commitCaughtUp (blocks : List CommittedBlock) :
    Releases counts (commitCaughtUp w blocks) := by
  refine (quiet_call _).bind_releases fun _ => releases_get_bind fun s => ?_
  refine (quiet_check _ _).bind_releases fun _ => ?_
  refine (quiet_commitBlocks blocks).bind_releases fun _ => ?_
  refine (quiet_call _).bind_releases fun _ => releases_get_bind fun t => ?_
  have hrest : Releases counts (unbumpPriority w >>= fun _ => unlock >>= fun _ =>
      pure (t.lastCommittedBlockID - s.lastCommittedBlockID)) :=
    quiet_unbumpPriority.bind_releases fun _ => releases_unlock.bind_pure
  exact .ite (quiet_afterCommits.bind_releases fun _ => hrest)
    ((quiet_pure ()).bind_releases fun _ => hrest)

theorem releases_commitDecided (committedBlockID : ℕ) (proposerIndex : SchainIndex) :
    Releases counts (commitDecided w committedBlockID proposerIndex) := by
  refine releases_get_bind fun s => .ite releases_unlock ?_
  refine (quiet_check _ _).bind_releases fun _ => ?_
  have hproposal : Quiet counts (committedProposal w committedBlockID proposerIndex) :=
    .ite (quiet_call _) (quiet_call _)
  refine hproposal.bind_releases fun proposal => ?_
  refine (quiet_commitProposal proposal).bind_releases fun _ => ?_
  exact quiet_unbumpPriority.bind_releases fun _ => releases_unlock

theorem takes_tryToLock : Takes counts (tryToLock w) := by
  refine takes_tryLockFor.or_else (quiet_checkForExit.bind_takes fun _ => ?_)
  exact (quiet_call _).takes_false

theorem takes_lockWithDeadLockCheck (rounds : ℕ) :
    Takes counts (lockWithDeadLockCheck w rounds) := by
  induction rounds with
  | zero => exact fun _ => rfl
  | succ rounds ih => exact takes_tryLockFor.or_else ((quiet_call _).bind_takes fun _ => ih)

/-! ### With the mutex locked a thread does not wait -/

theorem avoids_call {α : Type} (result : ℕ → Except Thrown α) : Avoids .waiting (call result) := by
  intro s t h
  unfold call EStateM.run at h
  dsimp only at h
  cases hresult : result s.step <;> rw [hresult] at h <;> cases h

theorem avoids_check (passed : Bool) (what : String) : Avoids .waiting (check passed what) :=
  .ite (avoids_pure _) (avoids_throw (by simp))

theorem avoids_checkForExit : Avoids .waiting (checkForExit w) :=
  (avoids_call _).bind fun _ => .ite (avoids_throw (by decide)) (avoids_pure _)

theorem avoids_unbumpPriority : Avoids .waiting (unbumpPriority w) :=
  (avoids_call _).bind fun _ => avoids_check _ _

theorem avoids_processCommittedBlock (block : CommittedBlock) :
    Avoids .waiting (processCommittedBlock w block) :=
  (avoids_call _).bind fun _ => avoids_modify _

theorem avoids_commitBlocks (blocks : List CommittedBlock) :
    Avoids .waiting (commitBlocks w blocks) := by
  induction blocks with
  | nil => exact avoids_pure _
  | cons block rest ih =>
    refine avoids_checkForExit.bind fun _ => avoids_get_bind fun s => .ite ?_ ih
    exact (avoids_check _ _).bind fun _ => (avoids_processCommittedBlock block).bind fun _ => ih

theorem avoids_commitCaughtUp (blocks : List CommittedBlock) :
    Avoids .waiting (commitCaughtUp w blocks) := by
  refine (avoids_call _).bind fun _ => avoids_get_bind fun s => (avoids_check _ _).bind fun _ => ?_
  refine (avoids_commitBlocks blocks).bind fun _ => (avoids_call _).bind fun _ => ?_
  refine avoids_get_bind fun t => ?_
  have hafter : Avoids .waiting (afterCommits w) :=
    (avoids_call _).bind fun _ => .ite (avoids_call _) (.ite (avoids_call _) (avoids_pure _))
  have hrest : Avoids .waiting (unbumpPriority w >>= fun _ => unlock >>= fun _ =>
      pure (t.lastCommittedBlockID - s.lastCommittedBlockID)) :=
    avoids_unbumpPriority.bind fun _ => (avoids_modify _).bind fun _ => avoids_pure _
  exact .ite (hafter.bind fun _ => hrest) ((avoids_pure ()).bind fun _ => hrest)

theorem avoids_commitProposal (proposal : Option BlockProposal) :
    Avoids .waiting (commitProposal w proposal) := by
  cases proposal with
  | none => exact avoids_throw (by decide)
  | some proposal =>
    refine (avoids_call _).bind fun _ => avoids_get_bind fun s => ?_
    refine (avoids_check _ _).bind fun _ => ?_
    exact (avoids_processCommittedBlock _).bind fun _ => avoids_call _

theorem avoids_commitDecided (committedBlockID : ℕ) (proposerIndex : SchainIndex) :
    Avoids .waiting (commitDecided w committedBlockID proposerIndex) := by
  refine avoids_get_bind fun s => .ite (avoids_modify _) ((avoids_check _ _).bind fun _ => ?_)
  have hproposal : Avoids .waiting (committedProposal w committedBlockID proposerIndex) :=
    .ite (avoids_call _) (avoids_call _)
  refine hproposal.bind fun proposal => (avoids_commitProposal proposal).bind fun _ => ?_
  exact avoids_unbumpPriority.bind fun _ => avoids_modify _

end Lock

/-! ### Both functions -/

section Condition
variable (w : World)

/-- If something is thrown before the mutex is locked, the priority of the thread cannot be reset;
if something is thrown later, it can. -/
structure Handled {α : Type} (enter : EStateM Stop Thread Bool) (hold : EStateM Stop Thread α)
    (s : Thread) : Prop where
  entering : ∀ e t, enter.run s = .error (.thrown e) t → w.setschedparam t.step = false
  holding : ∀ t e u, enter.run s = .ok true t → hold.run t = .error (.thrown e) u →
    w.setschedparam u.step = true

def CatchupHandled (rounds : ℕ) (blockList : Option (List CommittedBlock)) (s : Thread) : Prop :=
  ∀ blocks ∈ blockList, blocks ≠ [] → ∀ t, (beforeCatchup w rounds).run s = .ok () t →
    Handled w (tryToLock w) (commitCaughtUp w blocks) t

def CommitHandled (rounds lockRounds committedBlockID : ℕ) (proposerIndex : SchainIndex)
    (thresholdSig daSig : Bool) (s : Thread) : Prop :=
  ∀ t, (beforeCommit w rounds proposerIndex thresholdSig daSig).run s = .ok () t →
    Handled w (lockWithDeadLockCheck w lockRounds)
      (commitDecided w committedBlockID proposerIndex) t

end Condition

section Both
variable {w : World}

theorem returns_unbumpPriority (s : Thread) :
    returns (unbumpPriority w) s = w.setschedparam s.step := by
  have hcall : (call fun step => .ok (w.setschedparam step)).run s =
      .ok (w.setschedparam s.step) {s with step := s.step + 1} := rfl
  unfold returns result? unbumpPriority
  rw [run_bind_of_ok hcall]
  cases w.setschedparam s.step <;> rfl

theorem covered_iff_handled {α : Type} {enter : EStateM Stop Thread Bool}
    {hold : EStateM Stop Thread α} {s : Thread} (hhold : Avoids .waiting hold) :
    Covered caught enter hold (unbumpPriority w) s ↔ Handled w enter hold s := by
  constructor
  · intro h
    refine ⟨fun e t hrun => ?_, fun t e u hrun hthrown => ?_⟩
    · rw [← returns_unbumpPriority]
      exact h.entering _ t hrun rfl
    · rw [← returns_unbumpPriority]
      exact (h.holding t _ u hrun hthrown).2
  · intro h
    refine ⟨fun e t hrun hcaught => ?_, fun t e u hrun hstopped => ?_⟩
    · rw [returns_unbumpPriority]
      cases e with
      | thrown e => exact h.entering e t hrun
      | waiting => cases hcaught
    · rw [returns_unbumpPriority]
      cases e with
      | thrown e => exact ⟨rfl, h.holding t e u hrun hstopped⟩
      | waiting => exact absurd hstopped (hhold t u)

/-- The block with the handler of both functions. -/
theorem balanced_iff_handled {α : Type} {enter : EStateM Stop Thread Bool}
    {hold : EStateM Stop Thread α} {otherwise : α} {rethrow : Stop → Stop}
    (henter : Takes counts enter) (hreleases : Releases counts hold) (hhold : Avoids .waiting hold)
    (s : Thread) :
    Library.Balanced counts s
        (finalState (guarded caught enter hold otherwise (unbumpPriority w) unlock rethrow) s) ↔
      Handled w enter hold s :=
  (balanced_guarded_iff henter hreleases quiet_unbumpPriority releases_unlock
    (fun _ => rfl) s).trans (covered_iff_handled hhold)

end Both

/-- Whatever the calls return or throw, and however long the thread waits: the thread unlocks
`blockProcessMutex` once if it locked it, and not at all if it did not, exactly if nothing is thrown
between the start of the block with the handler and the lock, except where the priority of the
thread cannot be reset, and the priority can be reset where something is thrown with the mutex
locked. -/
theorem commitLock_balanced_iff (w : World) (s : Thread) (rounds : ℕ) :
    (∀ blockList, Library.Balanced counts s
        (finalState (blockCommitsArrivedThroughCatchup w rounds blockList) s) ↔
      CatchupHandled w rounds blockList s) ∧
    ∀ lockRounds committedBlockID proposerIndex thresholdSig daSig, Library.Balanced counts s
        (finalState (blockCommitArrived w rounds lockRounds committedBlockID proposerIndex
          thresholdSig daSig) s) ↔
      CommitHandled w rounds lockRounds committedBlockID proposerIndex thresholdSig daSig s := by
  refine ⟨fun blockList => ?_,
    fun lockRounds committedBlockID proposerIndex thresholdSig daSig => ?_⟩
  · cases blockList with
    | none => exact iff_of_true (.inl rfl) nofun
    | some blocks =>
      cases blocks with
      | nil =>
        refine iff_of_true (.inl rfl) fun blocks hblocks hne => ?_
        cases hblocks
        exact absurd rfl hne
      | cons block rest =>
        have hbefore : Quiet counts (beforeCatchup w rounds) :=
          (quiet_waitForBootstrap rounds).bind fun _ => quiet_call _
        refine (hbefore.balanced_bind_iff s).trans ⟨?_, fun h _ t hrun => ?_⟩
        · rintro h _ ⟨⟩ - t hrun
          exact (balanced_iff_handled takes_tryToLock (releases_commitCaughtUp _)
            (avoids_commitCaughtUp _) t).mp (h () t hrun)
        · exact (balanced_iff_handled takes_tryToLock (releases_commitCaughtUp _)
            (avoids_commitCaughtUp _) t).mpr (h _ rfl (List.cons_ne_nil _ _) t hrun)
  · have hbefore : Quiet counts (beforeCommit w rounds proposerIndex thresholdSig daSig) :=
      (quiet_check _ _).bind fun _ => (quiet_check _ _).bind fun _ =>
        (quiet_waitForBootstrap rounds).bind fun _ => (quiet_check _ _).bind fun _ =>
          quiet_checkForExit
    refine (hbefore.balanced_bind_iff s).trans ⟨fun h t hrun => ?_, fun h _ t hrun => ?_⟩
    · exact (balanced_iff_handled (takes_lockWithDeadLockCheck _) (releases_commitDecided _ _)
        (avoids_commitDecided _ _) t).mp (h () t hrun)
    · exact (balanced_iff_handled (takes_lockWithDeadLockCheck _) (releases_commitDecided _ _)
        (avoids_commitDecided _ _) t).mpr (h t hrun)

/-! ### A node that exits, and a thread that keeps its priority -/

/-- Every call returns, and the mutex is free. -/
def calm : World where
  getIsStateInitialized _ := .ok true
  isExitRequested _ := .ok false
  tryLockFor _ := .ok true
  getCurrentTimeMs _ := .ok ()
  log _ := .ok ()
  setschedparam _ := true
  getBlockProposal _ _ _ := .ok none
  createDefaultEmptyBlockProposal _ _ := .ok none
  makeFromProposal _ proposal := .ok {smallBlock with toBlockProposal := proposal}
  processCommittedBlock _ _ := .ok ()
  proposeNextBlock _ _ := .ok ()
  pendingTransactions _ := .ok ()
  isSyncOnlyNode := false
  hasExtFace := true

def idle : Thread := ⟨0, 0, 0, 0, ⟨0, 0⟩⟩

/-- The timed lock fails while the node exits, and the mutex is unlocked by a thread that does not
hold it. And a commit without a proposal, in a thread whose priority cannot be reset, leaves the
mutex locked. -/
theorem unlocked_without_lock :
    counts (finalState (blockCommitsArrivedThroughCatchup
        {calm with tryLockFor := fun _ => .ok false, isExitRequested := fun _ => .ok true} 1
        (some [smallBlock])) idle) = (0, 1) ∧
      ¬ Library.Balanced counts idle (finalState (blockCommitsArrivedThroughCatchup
        {calm with tryLockFor := fun _ => .ok false, isExitRequested := fun _ => .ok true} 1
        (some [smallBlock])) idle) ∧
    counts (finalState (blockCommitArrived {calm with setschedparam := fun _ => false} 1 1 1 2 true
        true) idle) = (1, 0) ∧
      ¬ Library.Balanced counts idle (finalState (blockCommitArrived
        {calm with setschedparam := fun _ => false} 1 1 1 2 true true) idle) := by
  have hcatchup : counts (finalState (blockCommitsArrivedThroughCatchup
      {calm with tryLockFor := fun _ => .ok false, isExitRequested := fun _ => .ok true} 1
      (some [smallBlock])) idle) = (0, 1) := rfl
  have hcommit : counts (finalState (blockCommitArrived {calm with setschedparam := fun _ => false}
      1 1 1 2 true true) idle) = (1, 0) := rfl
  refine ⟨hcatchup, fun h => ?_, hcommit, fun h => ?_⟩
  · unfold Library.Balanced at h
    rw [hcatchup] at h
    exact absurd h (by decide)
  · unfold Library.Balanced at h
    rw [hcommit] at h
    exact absurd h (by decide)

end SkaleConsensus.Schain
