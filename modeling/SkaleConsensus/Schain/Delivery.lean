import SkaleConsensus.Catchup.Client

/-! What the external face is given.

A committed block is saved, passed to `createBlock` of the external face and only then
made the last committed block. `createBlock` may throw, and so may the check of the clock
that comes after it; both leave the last committed block as it was. A node that starts
takes from the external face which block it has, and passes it the saved blocks that
follow. So the calls of one process that return are those for the blocks after the
reported one, in order, unless the clock was found to have gone back: then the external
face has a block that the node commits, and passes on, once more. -/
namespace SkaleConsensus.Schain
open Library Block Catchup

/-! ### The last committed block -/

/-- How far the node is with the block at hand. -/
inductive Phase where
  | down
  /-- The loop of `bootstrap`. -/
  | bootstrapping
  /-- `isStateInitialized`, and no block is being processed. -/
  | ready
  | saved (block : CommittedBlock)
  /-- `createBlock` has returned. -/
  | pushed (block : CommittedBlock)
deriving DecidableEq, Repr

/-- The last three fields are not in the code. -/
structure Ledger where
  phase : Phase
  /-- The last committed block; in the loop of `bootstrap`, its local variables. -/
  tip : Tip
  lastCommitTimeMs : ℕ
  blockDB : ℕ → Option CommittedBlock
  /-- `readLastCommittedBlockID`. -/
  lastSaved : ℕ
  /-- The blocks that the external face has. -/
  held : ℕ → Option CommittedBlock
  /-- What the external face reported to `bootstrap`. -/
  reported : ℕ
  /-- The blocks of the calls of `createBlock` that returned in this process. -/
  created : List CommittedBlock

namespace Ledger
variable (s : Ledger)

def saveBlock (block : CommittedBlock) : Ledger :=
  {s with
    phase := .saved block
    blockDB := Function.update s.blockDB block.blockID (some block)
    lastSaved := block.blockID }

/-- Up to `pushBlockToExtFace`. -/
def processCommittedBlock (block : CommittedBlock) : Ledger :=
  if s.tip.id + 1 = block.blockID then s.saveBlock block else s

/-- With the block that it makes of the decided proposal. -/
def blockCommitArrived (block : CommittedBlock) : Ledger :=
  if block.blockID ≤ s.tip.id then s
  else if (block.blockID = s.tip.id + 1 ∨ s.tip.id = 0) ∧ s.tip.stamp.lt block.getTimeStamp then
    s.processCommittedBlock block
  else s

/-- A turn of the loop of `blockCommitsArrivedThroughCatchup`. -/
def blockArrivedThroughCatchup (block : CommittedBlock) : Ledger :=
  if block.blockID = s.tip.id + 1 ∧ s.tip.stamp.lt block.getTimeStamp then
    s.processCommittedBlock block
  else s

def hold (block : CommittedBlock) : ℕ → Option CommittedBlock :=
  Function.update s.held block.blockID (some block)

/-- The block of the call of `createBlock` that the node is in. -/
def atHand : Option CommittedBlock :=
  match s.phase with
  | .saved block => some block
  | .bootstrapping => if s.tip.id < s.lastSaved then s.blockDB (s.tip.id + 1) else none
  | _ => none

/-- A call of `createBlock` returns. The loop of `bootstrap` goes on with the next block. -/
def createBlockReturns (block : CommittedBlock) : Ledger :=
  let s' := {s with held := s.hold block, created := s.created ++ [block]}
  if s.phase = .bootstrapping then {s' with tip := ⟨s.tip.id + 1, block.getTimeStamp⟩}
  else {s' with phase := .pushed block}

/-- A call of `createBlock` throws. The loop of `bootstrap` tries again. -/
def createBlockThrows : Ledger :=
  if s.phase = .bootstrapping then s else {s with phase := .ready}

def updateLastCommittedBlockInfo (block : CommittedBlock) (now : ℕ) : Except String Ledger := do
  checkState (block.blockID == s.tip.id + 1) "_lastCommittedBlockID == lastCommittedBlockID + 1"
  checkState (s.tip.stamp.lt block.getTimeStamp)
    "lastCommittedBlockTimeStamp < _lastCommittedBlockTimeStamp"
  checkState (decide (s.lastCommitTimeMs ≤ now)) "currentTime >= lastCommitTimeMs"
  return {s with tip := ⟨block.blockID, block.getTimeStamp⟩, lastCommitTimeMs := now}

/-- The rest of `processCommittedBlock`. -/
def afterCreateBlock (block : CommittedBlock) (now : ℕ) : Ledger :=
  match s.updateLastCommittedBlockInfo block now with
  | .ok s' => {s' with phase := .ready}
  | .error _ => {s with phase := .ready}

/-- Skaled does not save the milliseconds. -/
def reportedMs (id ms : ℕ) : ℕ :=
  if ms = 0 ∧ 0 < id then
    match s.blockDB id with
    | some block => block.timeStampMs
    | none => ms
  else ms

/-- `bootstrap` up to its loop, in a new process. -/
def bootstrap (id seconds ms : ℕ) : Ledger :=
  if id + 128 < s.lastSaved ∨ s.lastSaved < id then s
  else {s with
    phase := .bootstrapping
    tip := ⟨id, ⟨seconds, s.reportedMs id ms⟩⟩
    reported := id
    created := [] }

/-- `bootstrap` after its loop. -/
def initLastCommittedBlockInfo (now : ℕ) : Ledger :=
  if s.tip.stamp.s < 2 * MODERN_TIME then {s with phase := .ready, lastCommitTimeMs := now}
  else {s with phase := .down}

/-- The process ends. In a call of `createBlock` the external face may have taken the block. -/
def crash (taken : Bool) : Ledger :=
  match taken, s.atHand with
  | true, some block => {s with phase := .down, held := s.hold block}
  | _, _ => {s with phase := .down}

end Ledger

inductive LedgerEvent where
  | blockCommitArrived (block : CommittedBlock)
  | catchup (block : CommittedBlock)
  /-- A call of `createBlock` ends. -/
  | createBlock (returns : Bool)
  /-- `updateLastCommittedBlockInfo`, with the clock. -/
  | update (now : ℕ)
  | crash (taken : Bool)
  /-- A new process, with what the external face reports. -/
  | bootstrap (id seconds ms : ℕ)
  /-- The loop of `bootstrap` is over. -/
  | bootstrapped (now : ℕ)

/-- The block comes through consensus or through catchup. -/
def LedgerEvent.Brings (e : LedgerEvent) (block : CommittedBlock) : Prop :=
  e = .blockCommitArrived block ∨ e = .catchup block

def ledgerStep : LedgerEvent → Ledger → Option Ledger
  | .blockCommitArrived block, s =>
    if s.phase = .ready then some (s.blockCommitArrived block) else none
  | .catchup block, s =>
    if s.phase = .ready then some (s.blockArrivedThroughCatchup block) else none
  | .createBlock returns, s => s.atHand.map fun block =>
    if returns then s.createBlockReturns block else s.createBlockThrows
  | .update now, s =>
    match s.phase with
    | .pushed block => some (s.afterCreateBlock block now)
    | _ => none
  | .crash taken, s => some (s.crash taken)
  | .bootstrap id seconds ms, s =>
    if s.phase = .down then some (s.bootstrap id seconds ms) else none
  | .bootstrapped now, s =>
    if s.phase = .bootstrapping ∧ s.lastSaved ≤ s.tip.id then
      some (s.initLastCommittedBlockInfo now)
    else none

/-- A node from its first start on. -/
def ledger : Machine Ledger LedgerEvent where
  initial := ⟨.down, ⟨0, ⟨0, 0⟩⟩, 0, fun _ => none, 0, fun _ => none, 0, []⟩
  step := ledgerStep

/-! ### What a step can do -/

variable {s s' : Ledger} {e : LedgerEvent} {block : CommittedBlock}

inductive LedgerEffect (s : Ledger) : LedgerEvent → Ledger → Prop
  | same {e : LedgerEvent} : LedgerEffect s e s
  | saved {e : LedgerEvent} {block : CommittedBlock} (hevent : e.Brings block)
      (hphase : s.phase = .ready) (hid : block.blockID = s.tip.id + 1)
      (hstamp : s.tip.stamp.lt block.getTimeStamp = true) :
      LedgerEffect s e (s.saveBlock block)
  | pushed {block : CommittedBlock} (hphase : s.phase = .saved block) :
      LedgerEffect s (.createBlock true)
        {s with phase := .pushed block, held := s.hold block, created := s.created ++ [block]}
  | replayed {block : CommittedBlock} (hphase : s.phase = .bootstrapping)
      (hlast : s.tip.id < s.lastSaved) (hblock : s.blockDB (s.tip.id + 1) = some block) :
      LedgerEffect s (.createBlock true)
        {s with
          tip := ⟨s.tip.id + 1, block.getTimeStamp⟩
          held := s.hold block
          created := s.created ++ [block] }
  | threw {block : CommittedBlock} (hphase : s.phase = .saved block) :
      LedgerEffect s (.createBlock false) {s with phase := .ready}
  | updated {block : CommittedBlock} {now : ℕ} (hphase : s.phase = .pushed block)
      (hid : block.blockID = s.tip.id + 1) (hstamp : s.tip.stamp.lt block.getTimeStamp = true)
      (hclock : s.lastCommitTimeMs ≤ now) :
      LedgerEffect s (.update now)
        {s with
          phase := .ready
          tip := ⟨block.blockID, block.getTimeStamp⟩
          lastCommitTimeMs := now }
  | refused {block : CommittedBlock} {now : ℕ} (hphase : s.phase = .pushed block)
      (hnot : ¬ (block.blockID = s.tip.id + 1 ∧ s.tip.stamp.lt block.getTimeStamp = true ∧
        s.lastCommitTimeMs ≤ now)) :
      LedgerEffect s (.update now) {s with phase := .ready}
  | stopped {e : LedgerEvent} {held : ℕ → Option CommittedBlock}
      (hheld : held = s.held ∨ ∃ block, s.atHand = some block ∧ held = s.hold block) :
      LedgerEffect s e {s with phase := .down, held}
  | started {id seconds ms : ℕ} (hphase : s.phase = .down) (hid : id ≤ s.lastSaved) :
      LedgerEffect s (.bootstrap id seconds ms)
        {s with
          phase := .bootstrapping
          tip := ⟨id, ⟨seconds, s.reportedMs id ms⟩⟩
          reported := id
          created := [] }
  | initialized {now : ℕ} (hphase : s.phase = .bootstrapping) (hlast : s.lastSaved ≤ s.tip.id) :
      LedgerEffect s (.bootstrapped now) {s with phase := .ready, lastCommitTimeMs := now}

theorem effect_processCommittedBlock (hevent : e.Brings block) (hphase : s.phase = .ready)
    (hstamp : s.tip.stamp.lt block.getTimeStamp = true) :
    LedgerEffect s e (s.processCommittedBlock block) := by
  unfold Ledger.processCommittedBlock
  split_ifs with hid
  · exact .saved hevent hphase hid.symm hstamp
  · exact .same

theorem updateLastCommittedBlockInfo_eq (s : Ledger) (block : CommittedBlock) (now : ℕ) :
    (∃ e, s.updateLastCommittedBlockInfo block now = .error e ∧
      ¬ (block.blockID = s.tip.id + 1 ∧ s.tip.stamp.lt block.getTimeStamp = true ∧
        s.lastCommitTimeMs ≤ now)) ∨
    (s.updateLastCommittedBlockInfo block now =
        .ok {s with tip := ⟨block.blockID, block.getTimeStamp⟩, lastCommitTimeMs := now} ∧
      block.blockID = s.tip.id + 1 ∧ s.tip.stamp.lt block.getTimeStamp = true ∧
      s.lastCommitTimeMs ≤ now) := by
  unfold Ledger.updateLastCommittedBlockInfo
  cases hid : block.blockID == s.tip.id + 1 with
  | false => exact .inl ⟨_, rfl, fun h => by simp [h.1] at hid⟩
  | true =>
    cases hstamp : s.tip.stamp.lt block.getTimeStamp with
    | false => exact .inl ⟨_, rfl, fun h => nomatch h.2.1⟩
    | true =>
      cases hclock : decide (s.lastCommitTimeMs ≤ now) with
      | false => exact .inl ⟨_, rfl, fun h => of_decide_eq_false hclock h.2.2⟩
      | true => exact .inr ⟨rfl, by simpa using hid, rfl, of_decide_eq_true hclock⟩

theorem effect_afterCreateBlock {now : ℕ} (hphase : s.phase = .pushed block) :
    LedgerEffect s (.update now) (s.afterCreateBlock block now) := by
  unfold Ledger.afterCreateBlock
  rcases updateLastCommittedBlockInfo_eq s block now with
    ⟨e, hupdate, hnot⟩ | ⟨hupdate, hid, hstamp, hclock⟩
  · rw [hupdate]
    exact .refused hphase hnot
  · rw [hupdate]
    exact .updated hphase hid hstamp hclock

theorem effect_createBlock {returns : Bool} (hblock : s.atHand = some block) :
    LedgerEffect s (.createBlock returns)
      (if returns then s.createBlockReturns block else s.createBlockThrows) := by
  unfold Ledger.atHand at hblock
  unfold Ledger.createBlockReturns Ledger.createBlockThrows
  cases hphase : s.phase with
  | saved at_ =>
    rw [hphase] at hblock
    cases hblock
    cases returns with
    | false => exact .threw hphase
    | true => exact .pushed hphase
  | bootstrapping =>
    rw [hphase] at hblock
    dsimp only at hblock
    split_ifs at hblock with hlast
    cases returns with
    | false => exact .same
    | true =>
      have heffect := LedgerEffect.replayed hphase hlast hblock
      simp only [hphase] at heffect ⊢
      exact heffect
  | down | ready | pushed _ =>
    rw [hphase] at hblock
    cases hblock

theorem effect_crash (taken : Bool) : LedgerEffect s e (s.crash taken) := by
  unfold Ledger.crash
  split
  next block hblock => exact .stopped (.inr ⟨block, hblock, rfl⟩)
  next => exact .stopped (.inl rfl)

theorem effect_of_step (h : ledgerStep e s = some s') : LedgerEffect s e s' := by
  cases e with
  | blockCommitArrived block =>
    obtain ⟨hphase, h⟩ := Option.ite_none_right_eq_some.mp h
    cases h
    unfold Ledger.blockCommitArrived
    split_ifs with _ hchecks
    · exact .same
    · exact effect_processCommittedBlock (.inl rfl) hphase hchecks.2
    · exact .same
  | catchup block =>
    obtain ⟨hphase, h⟩ := Option.ite_none_right_eq_some.mp h
    cases h
    unfold Ledger.blockArrivedThroughCatchup
    split_ifs with hchecks
    · exact effect_processCommittedBlock (.inr rfl) hphase hchecks.2
    · exact .same
  | createBlock returns =>
    obtain ⟨block, hblock, rfl⟩ := Option.map_eq_some_iff.mp h
    exact effect_createBlock hblock
  | update now =>
    dsimp only [ledgerStep] at h
    split at h
    next block hphase =>
      cases h
      exact effect_afterCreateBlock hphase
    next => cases h
  | crash taken =>
    cases h
    exact effect_crash taken
  | bootstrap id seconds ms =>
    obtain ⟨hphase, h⟩ := Option.ite_none_right_eq_some.mp h
    cases h
    unfold Ledger.bootstrap
    split_ifs with hchecks
    · exact .same
    · exact .started hphase (by omega)
  | bootstrapped now =>
    obtain ⟨⟨hphase, hlast⟩, h⟩ := Option.ite_none_right_eq_some.mp h
    cases h
    unfold Ledger.initLastCommittedBlockInfo
    split_ifs
    · exact .initialized hphase hlast
    · exact .stopped (.inl rfl)

/-! ### What is in LevelDB -/

/-- The blocks that were saved, and what is known of them. -/
structure Filed (s : Ledger) : Prop where
  id : ∀ b block, s.blockDB b = some block → block.blockID = b ∧ 0 < b ∧ b ≤ s.lastSaved
  increasing : ∀ a b x y, a < b → s.blockDB a = some x → s.blockDB b = some y →
    x.getTimeStamp.lt y.getTimeStamp = true
  held : ∀ b block, s.held b = some block → s.blockDB b = some block

structure AtHand (s : Ledger) (block : CommittedBlock) : Prop where
  id : block.blockID = s.tip.id + 1
  stamp : s.tip.stamp.lt block.getTimeStamp = true
  saved : s.blockDB (s.tip.id + 1) = some block
  last : s.lastSaved = s.tip.id + 1

/-- The external face has nothing that the node will commit. -/
def NoneAhead (s : Ledger) : Prop := ∀ b block, s.held b = some block → b ≤ s.tip.id

/-- How far the saved blocks, and those of the external face, are ahead. -/
def InPhase (s : Ledger) : Prop :=
  match s.phase with
  | .down => True
  | .bootstrapping => s.tip.id ≤ s.lastSaved
  | .ready => s.lastSaved ≤ s.tip.id + 1 ∧ NoneAhead s
  | .saved block => AtHand s block ∧ NoneAhead s
  | .pushed block => AtHand s block

/-- What is later than the last committed block is later than all blocks up to it. -/
def Latest (s : Ledger) : Prop :=
  ∀ b block, b ≤ s.tip.id → s.blockDB b = some block →
    ∀ t, s.tip.stamp.lt t = true → block.getTimeStamp.lt t = true

/-- The last block of the external face, if it has what was created. -/
def Ledger.position (s : Ledger) : ℕ :=
  match s.phase with
  | .pushed _ => s.tip.id + 1
  | _ => s.tip.id

/-- The calls of `createBlock` that returned are for the saved blocks that follow the one
that was reported. -/
structure Follows (s : Ledger) : Prop where
  ids : s.created.map (·.blockID) = List.range' (s.reported + 1) s.created.length
  saved : ∀ block ∈ s.created, s.blockDB block.blockID = some block

structure Delivered (s : Ledger) : Prop where
  filed : Filed s
  phase : InPhase s
  latest : s.phase ≠ .down → Latest s
  follows : Follows s
  position : s.phase ≠ .down → s.reported + s.created.length = s.position

theorem of_update_eq_some {f : ℕ → Option CommittedBlock} {k b : ℕ} {x : CommittedBlock}
    (h : Function.update f k (some block) b = some x) :
    b = k ∧ x = block ∨ b ≠ k ∧ f b = some x := by
  rcases eq_or_ne b k with rfl | hne
  · rw [Function.update_self] at h
    exact .inl ⟨rfl, (Option.some.inj h).symm⟩
  · rw [Function.update_of_ne hne] at h
    exact .inr ⟨hne, h⟩

theorem Filed.hold (hs : Filed s) (hblock : s.blockDB block.blockID = some block) (b : ℕ)
    (x : CommittedBlock) (h : s.hold block b = some x) : s.blockDB b = some x := by
  rcases of_update_eq_some h with ⟨rfl, rfl⟩ | ⟨-, hb⟩
  · exact hblock
  · exact hs.held b x hb

theorem Filed.saveBlock (hs : Filed s) (hlatest : Latest s) (hlast : s.lastSaved ≤ s.tip.id + 1)
    (hnone : NoneAhead s) (hid : block.blockID = s.tip.id + 1)
    (hstamp : s.tip.stamp.lt block.getTimeStamp = true) : Filed (s.saveBlock block) := by
  refine ⟨fun b x hx => ?_, fun a b x y hab hx hy => ?_, fun b x hx => ?_⟩
  · rcases of_update_eq_some hx with ⟨rfl, rfl⟩ | ⟨-, hb⟩
    · exact ⟨rfl, by omega, le_refl _⟩
    · obtain ⟨hxid, hpos, hle⟩ := hs.id b x hb
      exact ⟨hxid, hpos, (hle.trans hlast).trans hid.ge⟩
  · rcases of_update_eq_some hy with ⟨rfl, rfl⟩ | ⟨-, hb⟩
    · rcases of_update_eq_some hx with ⟨rfl, -⟩ | ⟨-, ha⟩
      · exact absurd hab (lt_irrefl _)
      · exact hlatest a x (by omega) ha _ hstamp
    · rcases of_update_eq_some hx with ⟨rfl, -⟩ | ⟨-, ha⟩
      · obtain ⟨-, -, hle⟩ := hs.id b y hb
        omega
      · exact hs.increasing a b x y hab ha hb
  · have hle := hnone b x hx
    show Function.update s.blockDB block.blockID (some block) b = some x
    rw [Function.update_of_ne (by omega)]
    exact hs.held b x hx

namespace Delivered

theorem saved_of_atHand (hs : Delivered s) (h : s.atHand = some block) :
    s.blockDB block.blockID = some block := by
  have hphase := hs.phase
  unfold Ledger.atHand at h
  unfold InPhase at hphase
  cases hat : s.phase with
  | saved at_ =>
    rw [hat] at h hphase
    cases h
    rw [hphase.1.id]
    exact hphase.1.saved
  | bootstrapping =>
    rw [hat] at h
    dsimp only at h
    split_ifs at h
    rw [(hs.filed.id _ _ h).1]
    exact h
  | down | ready | pushed _ =>
    rw [hat] at h
    cases h

theorem ready (hs : Delivered s) (h : s.phase = .ready) :
    s.lastSaved ≤ s.tip.id + 1 ∧ NoneAhead s := by
  have hphase := hs.phase
  unfold InPhase at hphase
  rwa [h] at hphase

theorem saved (hs : Delivered s) (h : s.phase = .saved block) : AtHand s block ∧ NoneAhead s := by
  have hphase := hs.phase
  unfold InPhase at hphase
  rwa [h] at hphase

theorem pushed (hs : Delivered s) (h : s.phase = .pushed block) : AtHand s block := by
  have hphase := hs.phase
  unfold InPhase at hphase
  rwa [h] at hphase

end Delivered

/-! ### Runs -/

/-- The external face reports a block that it was given, with its time stamp but for the
milliseconds, or that it has none. -/
def Reports (s : Ledger) (id seconds ms : ℕ) : Prop :=
  (s.held id = none → id = 0) ∧
    ∀ block ∈ s.held id, seconds = block.timeStamp ∧ (ms = block.timeStampMs ∨ ms = 0)

instance (s : Ledger) (id seconds ms : ℕ) : Decidable (Reports s id seconds ms) :=
  inferInstanceAs (Decidable (_ ∧ _))

/-- When the last committed block is to be advanced, the clock is not behind the last
time that it was; and the external face reports what it has. -/
def Steady : LedgerEvent → Ledger → Prop
  | .update now, s => s.lastCommitTimeMs ≤ now
  | .bootstrap id seconds ms, s => Reports s id seconds ms
  | _, _ => True

instance : ∀ e s, Decidable (Steady e s)
  | .update now, s => inferInstanceAs (Decidable (s.lastCommitTimeMs ≤ now))
  | .bootstrap id seconds ms, s => inferInstanceAs (Decidable (Reports s id seconds ms))
  | .blockCommitArrived _, _ | .catchup _, _ | .createBlock _, _ | .crash _, _
  | .bootstrapped _, _ => inferInstanceAs (Decidable True)

theorem latest_of_saved (hs : Filed s) (hblock : s.blockDB s.tip.id = some block)
    (hstamp : s.tip.stamp = block.getTimeStamp) : Latest s := by
  intro b x hle hx t ht
  rw [hstamp] at ht
  rcases hle.lt_or_eq with hlt | rfl
  · exact TimeStamp.lt_trans (hs.increasing b _ x block hlt hx hblock) ht
  · obtain rfl := Option.some.inj (hx.symm.trans hblock)
    exact ht

theorem latest_bootstrap (hs : Filed s) {id seconds ms : ℕ} (h : Reports s id seconds ms)
    (htip : s'.tip = ⟨id, ⟨seconds, s.reportedMs id ms⟩⟩) (hdb : s'.blockDB = s.blockDB)
    (hs' : Filed s') : Latest s' := by
  obtain ⟨hnone, hsome⟩ := h
  cases hheld : s.held id with
  | none =>
    intro b x hle hx
    rw [htip] at hle
    obtain ⟨-, hpos, -⟩ := hs'.id b x hx
    have hzero : b ≤ 0 := hle.trans (hnone hheld).le
    omega
  | some block =>
    obtain ⟨rfl, hms⟩ := hsome block hheld
    have hblock := hs.held id block hheld
    obtain ⟨-, hpos, -⟩ := hs.id id block hblock
    have hsaved : s'.blockDB s'.tip.id = some block := by
      rw [hdb, htip]
      exact hblock
    refine latest_of_saved hs' hsaved ?_
    have hreported : s.reportedMs id ms = block.timeStampMs := by
      unfold Ledger.reportedMs
      rw [hblock]
      rcases hms with rfl | rfl
      · exact ite_self _
      · exact if_pos ⟨rfl, hpos⟩
    rw [htip, hreported]
    rfl

theorem Follows.append (hs : Follows s) (hid : block.blockID = s.reported + s.created.length + 1)
    (hblock : s.blockDB block.blockID = some block) (hcreated : s'.created = s.created ++ [block])
    (hreported : s'.reported = s.reported) (hdb : s'.blockDB = s.blockDB) : Follows s' := by
  constructor
  · rw [hcreated, hreported, List.map_append, hs.ids, List.length_append, List.length_singleton,
      List.range'_1_concat, List.map_singleton, hid, Nat.add_right_comm]
  · rw [hcreated, hdb]
    intro x hx
    rcases List.mem_append.mp hx with hx | hx
    · exact hs.saved x hx
    · rw [List.mem_singleton.mp hx]
      exact hblock

theorem Follows.le (hs : Follows s) {x : CommittedBlock} (hx : x ∈ s.created) :
    x.blockID ≤ s.reported + s.created.length := by
  have hmem : x.blockID ∈ List.range' (s.reported + 1) s.created.length :=
    hs.ids ▸ List.mem_map_of_mem hx
  have hrange := List.mem_range'_1.mp hmem
  omega

namespace Delivered

theorem saveBlock (hs : Delivered s) (hphase : s.phase = .ready)
    (hid : block.blockID = s.tip.id + 1) (hstamp : s.tip.stamp.lt block.getTimeStamp = true) :
    Delivered (s.saveBlock block) := by
  have hup : s.phase ≠ .down := by rw [hphase]; nofun
  have hlatest := hs.latest hup
  have hposition : s.reported + s.created.length = s.tip.id := by
    rw [hs.position hup, Ledger.position, hphase]
  obtain ⟨hlast, hnone⟩ := hs.ready hphase
  have hkept : ∀ b, b ≤ s.tip.id → (s.saveBlock block).blockDB b = s.blockDB b :=
    fun b hb => Function.update_of_ne (by omega) _ _
  refine {
    filed := hs.filed.saveBlock hlatest hlast hnone hid hstamp
    phase := ⟨⟨hid, hstamp, ?_, hid⟩, hnone⟩
    latest := fun _ b x hb hx => hlatest b x hb (hkept b hb ▸ hx)
    follows := ⟨hs.follows.ids, fun x hx => ?_⟩
    position := fun _ => hposition }
  · show Function.update s.blockDB block.blockID (some block) (s.tip.id + 1) = some block
    rw [← hid, Function.update_self]
  · rw [hkept _ ((hs.follows.le hx).trans hposition.le)]
    exact hs.follows.saved x hx

theorem pushBlock (hs : Delivered s) (hphase : s.phase = .saved block) :
    Delivered {s with
      phase := .pushed block, held := s.hold block, created := s.created ++ [block]} := by
  have hup : s.phase ≠ .down := by rw [hphase]; nofun
  have hposition : s.reported + s.created.length = s.tip.id := by
    rw [hs.position hup, Ledger.position, hphase]
  have hhand := (hs.saved hphase).1
  have hblock : s.blockDB block.blockID = some block := hhand.id ▸ hhand.saved
  exact {
    filed := ⟨hs.filed.id, hs.filed.increasing, hs.filed.hold hblock⟩
    phase := ⟨hhand.id, hhand.stamp, hhand.saved, hhand.last⟩
    latest := fun _ => hs.latest hup
    follows := hs.follows.append (by rw [hposition, hhand.id]) hblock rfl rfl rfl
    position := fun _ => by
      show s.reported + (s.created ++ [block]).length = s.tip.id + 1
      rw [List.length_append, ← Nat.add_assoc, hposition]
      rfl }

theorem replayBlock (hs : Delivered s) (hphase : s.phase = .bootstrapping)
    (hlast : s.tip.id < s.lastSaved) (hblock : s.blockDB (s.tip.id + 1) = some block) :
    Delivered {s with
      tip := ⟨s.tip.id + 1, block.getTimeStamp⟩
      held := s.hold block
      created := s.created ++ [block] } := by
  have hup : s.phase ≠ .down := by rw [hphase]; nofun
  have hposition : s.reported + s.created.length = s.tip.id := by
    rw [hs.position hup, Ledger.position, hphase]
  have hid := (hs.filed.id _ _ hblock).1
  have hheld := hs.filed.hold (hid ▸ hblock)
  have hfiled : Filed {s with
      tip := ⟨s.tip.id + 1, block.getTimeStamp⟩
      held := s.hold block
      created := s.created ++ [block] } := ⟨hs.filed.id, hs.filed.increasing, hheld⟩
  refine {
    filed := hfiled
    phase := ?_
    latest := fun _ => latest_of_saved hfiled hblock rfl
    follows := hs.follows.append (by rw [hposition, hid]) (hid ▸ hblock) rfl rfl rfl
    position := fun _ => ?_ }
  · unfold InPhase
    rw [hphase]
    exact hlast
  · unfold Ledger.position
    rw [hphase]
    show s.reported + (s.created ++ [block]).length = s.tip.id + 1
    rw [List.length_append, ← Nat.add_assoc, hposition]
    rfl

theorem updateInfo (hs : Delivered s) (hphase : s.phase = .pushed block) (now : ℕ) :
    Delivered {s with
      phase := .ready
      tip := ⟨block.blockID, block.getTimeStamp⟩
      lastCommitTimeMs := now } := by
  have hup : s.phase ≠ .down := by rw [hphase]; nofun
  have hhand := hs.pushed hphase
  have hfiled : Filed {s with
      phase := .ready
      tip := ⟨block.blockID, block.getTimeStamp⟩
      lastCommitTimeMs := now } := ⟨hs.filed.id, hs.filed.increasing, hs.filed.held⟩
  have hle : s.lastSaved ≤ block.blockID := by rw [hhand.last, hhand.id]
  exact {
    filed := hfiled
    phase := ⟨Nat.le_succ_of_le hle, fun b x hx =>
      (hs.filed.id b x (hs.filed.held b x hx)).2.2.trans hle⟩
    latest := fun _ => latest_of_saved hfiled (hhand.id ▸ hhand.saved) rfl
    follows := ⟨hs.follows.ids, hs.follows.saved⟩
    position := fun _ => by
      show s.reported + s.created.length = block.blockID
      rw [hs.position hup, hhand.id, Ledger.position, hphase] }

theorem effect (hs : Delivered s) (hsteady : Steady e s) (he : LedgerEffect s e s') :
    Delivered s' := by
  cases he with
  | same => exact hs
  | saved _ hphase hid hstamp => exact hs.saveBlock hphase hid hstamp
  | pushed hphase => exact hs.pushBlock hphase
  | replayed hphase hlast hblock => exact hs.replayBlock hphase hlast hblock
  | @threw block hphase =>
    have hup : s.phase ≠ .down := by rw [hphase]; nofun
    obtain ⟨hhand, hnone⟩ := hs.saved hphase
    exact {
      filed := ⟨hs.filed.id, hs.filed.increasing, hs.filed.held⟩
      phase := ⟨hhand.last.le, hnone⟩
      latest := fun _ => hs.latest hup
      follows := ⟨hs.follows.ids, hs.follows.saved⟩
      position := fun _ => by
        rw [hs.position hup, Ledger.position, hphase]
        rfl }
  | updated hphase => exact hs.updateInfo hphase _
  | refused hphase hnot =>
    have hhand := hs.pushed hphase
    exact absurd ⟨hhand.id, hhand.stamp, hsteady⟩ hnot
  | stopped hheld =>
    refine {
      filed := ⟨hs.filed.id, hs.filed.increasing, ?_⟩
      phase := trivial
      latest := fun h => absurd rfl h
      follows := ⟨hs.follows.ids, hs.follows.saved⟩
      position := fun h => absurd rfl h }
    rcases hheld with rfl | ⟨block, hblock, rfl⟩
    · exact hs.filed.held
    · exact hs.filed.hold (hs.saved_of_atHand hblock)
  | started hphase hid =>
    exact {
      filed := ⟨hs.filed.id, hs.filed.increasing, hs.filed.held⟩
      phase := hid
      latest := fun _ => latest_bootstrap hs.filed hsteady rfl rfl
        ⟨hs.filed.id, hs.filed.increasing, hs.filed.held⟩
      follows := ⟨rfl, nofun⟩
      position := fun _ => rfl }
  | initialized hphase hlast =>
    have hup : s.phase ≠ .down := by rw [hphase]; nofun
    exact {
      filed := ⟨hs.filed.id, hs.filed.increasing, hs.filed.held⟩
      phase := ⟨Nat.le_succ_of_le hlast, fun b x hx =>
        (hs.filed.id b x (hs.filed.held b x hx)).2.2.trans hlast⟩
      latest := fun _ => hs.latest hup
      follows := ⟨hs.follows.ids, hs.follows.saved⟩
      position := fun _ => by
        rw [hs.position hup, Ledger.position, hphase]
        rfl }

theorem initial : Delivered ledger.initial where
  filed := ⟨nofun, nofun, nofun⟩
  phase := trivial
  latest h := absurd rfl h
  follows := ⟨rfl, nofun⟩
  position h := absurd rfl h

end Delivered

theorem Delivered.pairwise (hs : Delivered s) :
    s.created.Pairwise fun x y => x.getTimeStamp.lt y.getTimeStamp = true := by
  have hids : (s.created.map (·.blockID)).Pairwise (· < ·) := by
    rw [hs.follows.ids]
    exact List.pairwise_lt_range'
  refine (List.pairwise_map.mp hids).imp_of_mem fun {x y} hx hy hlt => ?_
  exact hs.filed.increasing _ _ x y hlt (hs.follows.saved x hx) (hs.follows.saved y hy)

/-- In a run in which the clock does not go back between commits, the calls of `createBlock`
that return in one process are for the blocks that follow the one that the external face
reported, one after the other, with increasing time stamps. -/
theorem created_follow_reported {events : List LedgerEvent} (hrun : ledger.run events = some s)
    (hsteady : ledger.Keeps Steady ledger.initial events) :
    s.created.map (·.blockID) = List.range' (s.reported + 1) s.created.length ∧
      s.created.Pairwise fun x y => x.getTimeStamp.lt y.getTimeStamp = true := by
  have hs : Delivered s := Machine.run_invariant_of_keeps hrun hsteady Delivered.initial
    fun _ _ _ hs hsteady hstep => hs.effect hsteady (effect_of_step hstep)
  exact ⟨hs.follows.ids, hs.pairwise⟩

def firstBlock : CommittedBlock := ⟨.first, [2], [3], List.cons_ne_nil _ _⟩

def secondBlock : CommittedBlock := {firstBlock with
  blockID := 2
  timeStampMs := 2
  fits := by decide }

/-- The second block is thrown back, committed again and lost with the process. -/
def untilReplayed : List LedgerEvent :=
  [.bootstrap 0 0 0, .bootstrapped 10, .blockCommitArrived firstBlock, .createBlock true,
    .update 20, .blockCommitArrived secondBlock, .createBlock false, .catchup secondBlock,
    .crash false, .bootstrap 1 (MODERN_TIME + 1) 0, .createBlock false, .createBlock true,
      .bootstrapped 5]

theorem created_follow_reported_untilReplayed :
    ∃ s, ledger.run untilReplayed = some s ∧ s.reported = 1 ∧ s.created = [secondBlock] ∧
      s.created.map (·.blockID) = List.range' (s.reported + 1) s.created.length ∧
      s.created.Pairwise fun x y => x.getTimeStamp.lt y.getTimeStamp = true := by
  have hexists : ∃ s, ledger.run untilReplayed = some s ∧ s.reported = 1 ∧
      s.created = [secondBlock] := Machine.exists_run (by decide +kernel)
  obtain ⟨s, hrun, hreported, hcreated⟩ := hexists
  exact ⟨s, hrun, hreported, hcreated, created_follow_reported hrun (by decide +kernel)⟩

/-- The clock goes back between the start and the commit of the first block. -/
theorem created_twice_of_clock_back :
    ∃ s, ledger.run [.bootstrap 0 0 0, .bootstrapped 10, .blockCommitArrived firstBlock,
        .createBlock true, .update 9, .catchup firstBlock, .createBlock true] = some s ∧
      s.created = [firstBlock, firstBlock] ∧
      s.created.map (·.blockID) ≠ List.range' (s.reported + 1) s.created.length :=
  Machine.exists_run (by decide +kernel)

end SkaleConsensus.Schain
