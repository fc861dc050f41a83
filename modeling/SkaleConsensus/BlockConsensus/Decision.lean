import SkaleConsensus.Common
import SkaleConsensus.Library.LruCache
import SkaleConsensus.Library.PartialScan
import SkaleConsensus.Library.Program
import SkaleConsensus.Library.Quorum

/-! Which block is decided.

The binary consensuses of a block report to the `BlockConsensusAgent` in any order.
After each report the agent looks at the proposers in a cyclic order that starts at
a number taken from the previous block, and decides on the first one whose
consensus said yes as soon as all before it are known to have said no; if all say
no it decides the default block, index 0.

The caches of the agent hold ten blocks. A report goes into a map that the cache
shares, so the entry of the block is changed in place. -/
namespace SkaleConsensus.BlockConsensus
open Library OrderedMap

structure ChildBVDecidedMessage where
  blockID : ℕ
  blockProposerIndex : SchainIndex
  value : Value
  round : ℕ
  maxProcessingTimeMs : ℕ
  maxLatencyTimeMs : ℕ
deriving DecidableEq, Repr

abbrev Decisions := OrderedMap SchainIndex ChildBVDecidedMessage
abbrev DecisionCache := LruCache ℕ Decisions MAX_CONSENSUS_HISTORY

/-- What the agent reads of its chain. `finalizes` says whether the node's own share
completes the signature of a block, so that deciding it commits it. -/
structure Schain where
  nodeCount : ℕ
  /-- The hash of a block in the database. -/
  blockHash : ℕ → Option Hash
  finalizes : ℕ → SchainIndex → Bool

/-- A call of `decideBlock`; its block and index are what the node signs. -/
structure DecideCall where
  blockID : ℕ
  index : SchainIndex
  stats : Bytes
deriving DecidableEq, Repr

def DecideCall.pair (call : DecideCall) : ℕ × SchainIndex := (call.blockID, call.index)

/-- The agent, the last committed block, and the decisions so far, oldest first. -/
structure Agent where
  trueDecisions : DecisionCache
  falseDecisions : DecisionCache
  decidedIndices : LruCache ℕ SchainIndex MAX_CONSENSUS_HISTORY
  lastCommittedBlockID : ℕ
  decideCalls : List DecideCall

namespace Agent

def decisions (s : Agent) (v : Bool) : DecisionCache :=
  if v then s.trueDecisions else s.falseDecisions

def mapDecisions (s : Agent) (v : Bool) (f : DecisionCache → DecisionCache) : Agent :=
  if v then {s with trueDecisions := f s.trueDecisions}
  else {s with falseDecisions := f s.falseDecisions}

/-- What `decideBlock` leaves behind if it does not throw. -/
def withDecision (c : Schain) (call : DecideCall) (s : Agent) : Agent :=
  {s with
    decideCalls := s.decideCalls ++ [call]
    decidedIndices := s.decidedIndices.put call.blockID call.index
    lastCommittedBlockID :=
      if c.finalizes call.blockID call.index then call.blockID else s.lastCommittedBlockID}

end Agent

abbrev Handler := EStateM String Agent

def getIfExists (v : Bool) (blockID : ℕ) : Handler (Option Decisions) := do
  let s ← get
  set (s.mapDecisions v fun cache => cache.touch blockID)
  return (s.decisions v).get? blockID

/-- One child in the statistics: what it decided, in which round, how slowly. -/
def childStats (i : SchainIndex) (trues falses : Option Decisions) : Bytes :=
  let found (decision : String) (m : ChildBVDecidedMessage) : String :=
    "D" ++ decision ++ "R" ++ toString m.round ++ "P" ++ toString m.maxProcessingTimeMs ++ "L" ++
      toString m.maxLatencyTimeMs ++ "|"
  textBytes (toString i ++ "|") ++ textBytes
    (match trues.bind (·.get? i), falses.bind (·.get? i) with
    | some m, _ => found "1" m
    | none, some m => found "0" m
    | none, none => "*|")

def buildStats (c : Schain) (blockID : ℕ) : Handler Bytes := do
  let tDecisions ← getIfExists true blockID
  let fDecisions ← getIfExists false blockID
  return (List.range c.nodeCount).flatMap fun i => childStats (i + 1) tDecisions fDecisions

def decideBlock (c : Schain) (blockID : ℕ) (index : SchainIndex) (stats : Bytes) :
    Handler Unit := do
  checkArgument (!stats.isEmpty) "!_stats.empty()"
  modify (Agent.withDecision c ⟨blockID, index, stats⟩)

def decideDefaultBlock (c : Schain) (blockID : ℕ) : Handler Unit :=
  decideBlock c blockID 0 (textBytes "DEFAULT_BLOCK")

/-- The number the cyclic order starts from. -/
def seed (c : Schain) (s : Agent) (blockID : ℕ) : Except String ℕ :=
  if blockID ≤ 1 then pure 1
  else do
    checkState (decide (blockID - 1 ≤ s.lastCommittedBlockID))
      "blockID - 1 <= getSchain()->getLastCommittedBlockID()"
    match c.blockHash (blockID - 1) with
    | none => throw ("Can not read block " ++ toString (blockID - 1) ++ " from LevelDB")
    | some hash => pure (firstUint64 hash)

/-- The order the proposers are looked at. -/
def cyclicOrder (nodeCount seed : ℕ) : List SchainIndex :=
  (List.range nodeCount).map fun j => (seed % nodeCount + j) % nodeCount + 1

def hasDecision (decisions : Option Decisions) (index : SchainIndex) : Bool :=
  (decisions.map fun m => m.contains index).getD false

/-- The loop of `reportConsensusAndDecideIfNeeded`. -/
def scan (c : Schain) (blockID : ℕ) : List SchainIndex → Handler Unit
  | [] => pure ()
  | index :: rest => do
    let trues ← getIfExists true blockID
    if hasDecision trues index then do
      let statsString ← buildStats c blockID
      checkState (!statsString.isEmpty) "!statsString.empty()"
      decideBlock c blockID index statsString
    else do
      let falses ← getIfExists false blockID
      if hasDecision falses index then scan c blockID rest else pure ()

/-- The report goes into the map of its block, which is made if there is none. -/
def record (cache : DecisionCache) (msg : ChildBVDecidedMessage) : DecisionCache :=
  let cache := if cache.contains msg.blockID then cache else cache.put msg.blockID .empty
  cache.put msg.blockID
    (((cache.get? msg.blockID).getD .empty).emplace msg.blockProposerIndex msg)

/-- What follows the recording of a report. -/
def decideIfNeeded (c : Schain) (blockID : ℕ) : Handler Unit := do
  let trues ← getIfExists true blockID
  if (trues.getD .empty).size == 0 then do
    let falses ← getIfExists false blockID
    if falses.isSome && (falses.getD .empty).size == c.nodeCount then
      decideDefaultBlock c blockID
    else pure ()
  else do
    let s ← get
    match seed c s blockID with
    | .error e => throw e
    | .ok seed => scan c blockID (cyclicOrder c.nodeCount seed)

def reportConsensusAndDecideIfNeeded (c : Schain) (msg : ChildBVDecidedMessage) : Handler Unit :=
  EStateM.adaptExcept (fun _ => "reportConsensusAndDecideIfNeeded") do
    let s ← get
    if msg.blockID ≤ s.lastCommittedBlockID then pure ()
    else do
      checkState (decide (msg.blockProposerIndex ≤ c.nodeCount))
        "blockProposerIndex <= nodeCount"
      if s.decidedIndices.contains msg.blockID then pure ()
      else do
        set (s.mapDecisions msg.value.toBool fun cache => record cache msg)
        decideIfNeeded c msg.blockID

/-! ### What a report does

Lookups reorder the caches; what they find is what the agent's answers depend on. -/

namespace Agent

/-- The agents give the same answers. -/
structure Alike (s s' : Agent) : Prop where
  decisions : ∀ v k, (s'.decisions v).get? k = (s.decisions v).get? k
  decidedIndices : s'.decidedIndices = s.decidedIndices
  lastCommittedBlockID : s'.lastCommittedBlockID = s.lastCommittedBlockID
  decideCalls : s'.decideCalls = s.decideCalls

variable {s s' s'' : Agent}

theorem Alike.refl (s : Agent) : Alike s s := ⟨fun _ _ => rfl, rfl, rfl, rfl⟩

theorem Alike.trans (h : Alike s s') (h' : Alike s' s'') : Alike s s'' where
  decisions v k := (h'.decisions v k).trans (h.decisions v k)
  decidedIndices := h'.decidedIndices.trans h.decidedIndices
  lastCommittedBlockID := h'.lastCommittedBlockID.trans h.lastCommittedBlockID
  decideCalls := h'.decideCalls.trans h.decideCalls

theorem alike_touch (s : Agent) (v : Bool) (b : ℕ) :
    Alike s (s.mapDecisions v fun cache => cache.touch b) := by
  cases v
  · refine ⟨fun w k => ?_, rfl, rfl, rfl⟩
    cases w
    · exact LruCache.get?_touch s.falseDecisions b k
    · rfl
  · refine ⟨fun w k => ?_, rfl, rfl, rfl⟩
    cases w
    · rfl
    · exact LruCache.get?_touch s.trueDecisions b k

/-- The children of a block that reported a value. -/
def reporters (s : Agent) (v : Bool) (b : ℕ) : Finset SchainIndex :=
  (((s.decisions v).get? b).getD .empty).keys

theorem Alike.reporters (h : Alike s s') (v : Bool) (b : ℕ) :
    s'.reporters v b = s.reporters v b := by
  unfold Agent.reporters
  rw [h.decisions]

theorem hasDecision_iff {v : Bool} {b : ℕ} {i : SchainIndex} :
    hasDecision ((s.decisions v).get? b) i = true ↔ i ∈ s.reporters v b := by
  unfold hasDecision Agent.reporters
  cases (s.decisions v).get? b with
  | none => simp
  | some m => exact contains_iff

/-- What the scan knows of a child. -/
def known (s : Agent) (b : ℕ) (i : SchainIndex) : Option Bool :=
  if i ∈ s.reporters true b then some true
  else if i ∈ s.reporters false b then some false
  else none

theorem Alike.known (h : Alike s s') (b : ℕ) : s'.known b = s.known b := by
  funext i
  unfold Agent.known
  rw [h.reporters, h.reporters]

end Agent

section Runs
variable {c : Schain} {b : ℕ}
open Agent

theorem getIfExists_run (v : Bool) (s : Agent) :
    (getIfExists v b).run s =
      .ok ((s.decisions v).get? b) (s.mapDecisions v fun cache => cache.touch b) := rfl

theorem childStats_ne_nil (i : SchainIndex) (trues falses : Option Decisions) :
    childStats i trues falses ≠ [] := by
  unfold childStats textBytes
  simp

theorem buildStats_run (hn : 0 < c.nodeCount) (s : Agent) :
    ∃ s' stats, Alike s s' ∧ (!stats.isEmpty) = true ∧ (buildStats c b).run s = .ok stats s' := by
  refine ⟨_, _, (alike_touch s true b).trans (alike_touch _ false b), ?_, rfl⟩
  obtain ⟨n, hn'⟩ := Nat.exists_eq_add_of_lt hn
  rw [hn', List.range_succ_eq_map]
  simp [childStats_ne_nil]

theorem decideBlock_run {index : SchainIndex} {stats : Bytes} (h : (!stats.isEmpty) = true)
    (s : Agent) :
    (decideBlock c b index stats).run s = .ok () (s.withDecision c ⟨b, index, stats⟩) := by
  unfold decideBlock checkArgument
  rw [h]
  rfl

theorem scan_run (hn : 0 < c.nodeCount) (l : List SchainIndex) (s : Agent) :
    ∃ s', Alike s s' ∧ match scan? (s.known b) l with
      | none => (scan c b l).run s = .ok () s'
      | some i => ∃ stats, (scan c b l).run s = .ok () (s'.withDecision c ⟨b, i, stats⟩) := by
  induction l generalizing s with
  | nil => exact ⟨s, .refl s, rfl⟩
  | cons i rest ih =>
    unfold scan? scan
    simp only [EStateM.run_bind, getIfExists_run]
    by_cases htrue : i ∈ s.reporters true b
    · rw [show s.known b i = some true from if_pos htrue, hasDecision_iff.mpr htrue]
      obtain ⟨s', stats, halike, hstats, hrun⟩ :=
        buildStats_run (b := b) hn (s.mapDecisions true fun cache => cache.touch b)
      refine ⟨s', (alike_touch s true b).trans halike, stats, ?_⟩
      simp only [if_true, EStateM.run_bind, hrun, checkState_run_of_true hstats,
        decideBlock_run hstats]
    · have hfirst := alike_touch s true b
      have hboth := hfirst.trans (alike_touch _ false b)
      rw [Bool.eq_false_iff.mpr (mt hasDecision_iff.mp htrue), if_neg Bool.false_ne_true]
      simp only [EStateM.run_bind, getIfExists_run]
      by_cases hfalse : i ∈ s.reporters false b
      · have hknown : s.known b i = some false := by
          unfold Agent.known
          rw [if_neg htrue, if_pos hfalse]
        rw [hknown, hasDecision_iff.mpr (by rw [hfirst.reporters]; exact hfalse), if_pos rfl]
        obtain ⟨s', halike, hrun⟩ := ih ((s.mapDecisions true _).mapDecisions false _)
        rw [hboth.known] at hrun
        exact ⟨s', hboth.trans halike, hrun⟩
      · have hknown : s.known b i = none := by
          unfold Agent.known
          rw [if_neg htrue, if_neg hfalse]
        have hnot : i ∉ (s.mapDecisions true fun cache => cache.touch b).reporters false b := by
          rw [hfirst.reporters]
          exact hfalse
        rw [hknown, Bool.eq_false_iff.mpr (mt hasDecision_iff.mp hnot), if_neg Bool.false_ne_true]
        exact ⟨_, hboth, rfl⟩

/-- Nobody has said yes: the default block, once all have said no. -/
theorem decideIfNeeded_run_of_none (hn : 0 < c.nodeCount) {s : Agent}
    (htrue : s.reporters true b = ∅) :
    ∃ s', Alike s s' ∧
      if (s.reporters false b).card = c.nodeCount then
        ∃ stats, (decideIfNeeded c b).run s = .ok () (s'.withDecision c ⟨b, 0, stats⟩)
      else (decideIfNeeded c b).run s = .ok () s' := by
  have hfirst := alike_touch s true b
  refine ⟨_, hfirst.trans (alike_touch _ false b), ?_⟩
  have hsize : ((((s.decisions true).get? b).getD .empty).size == 0) = true := by
    rw [size_eq_card]
    exact beq_iff_eq.mpr (Finset.card_eq_zero.mpr htrue)
  unfold decideIfNeeded
  simp only [EStateM.run_bind, getIfExists_run, hsize, if_true, hfirst.decisions false b]
  have hcard : (((s.decisions false).get? b).isSome &&
      (((s.decisions false).get? b).getD .empty).size == c.nodeCount) =
        decide ((s.reporters false b).card = c.nodeCount) := by
    rw [size_eq_card]
    unfold Agent.reporters
    cases (s.decisions false).get? b with
    | some m => rfl
    | none => simp [hn.ne]
  rw [hcard]
  by_cases hall : (s.reporters false b).card = c.nodeCount
  · rw [if_pos hall, if_pos (decide_eq_true hall)]
    exact ⟨_, decideBlock_run (by decide) _⟩
  · rw [if_neg hall, if_neg (by simpa using hall)]
    rfl

/-- Somebody has: the scan. -/
theorem decideIfNeeded_run_of_some (hn : 0 < c.nodeCount) {s : Agent} {r : ℕ}
    (hseed : seed c s b = .ok r) (htrue : s.reporters true b ≠ ∅) :
    ∃ s', Alike s s' ∧ match scan? (s.known b) (cyclicOrder c.nodeCount r) with
      | none => (decideIfNeeded c b).run s = .ok () s'
      | some i => ∃ stats,
        (decideIfNeeded c b).run s = .ok () (s'.withDecision c ⟨b, i, stats⟩) := by
  have hfirst := alike_touch s true b
  have hsize : ((((s.decisions true).get? b).getD .empty).size == 0) = false := by
    rw [size_eq_card]
    exact beq_eq_false_iff_ne.mpr (Finset.card_ne_zero.mpr (Finset.nonempty_iff_ne_empty.mpr htrue))
  have hseed' : seed c (s.mapDecisions true fun cache => cache.touch b) b = .ok r := by
    unfold seed at hseed ⊢
    rw [hfirst.lastCommittedBlockID]
    exact hseed
  unfold decideIfNeeded
  simp only [EStateM.run_bind, getIfExists_run, hsize, Bool.false_eq_true, if_false,
    EStateM.run_get, hseed']
  obtain ⟨s', halike, hrun⟩ := scan_run (b := b) hn (cyclicOrder c.nodeCount r)
    (s.mapDecisions true fun cache => cache.touch b)
  rw [hfirst.known] at hrun
  exact ⟨s', hfirst.trans halike, hrun⟩

end Runs

theorem get?_record (cache : DecisionCache) (msg : ChildBVDecidedMessage) :
    (record cache msg).get? msg.blockID =
      some (((cache.get? msg.blockID).getD .empty).emplace msg.blockProposerIndex msg) := by
  have hroom : 0 < MAX_CONSENSUS_HISTORY := by decide
  unfold record
  rw [LruCache.get?_put_self _ _ _ hroom]
  cases hget : cache.get? msg.blockID with
  | none =>
    have hcontains : cache.contains msg.blockID = false := by
      unfold LruCache.contains
      rw [hget]
      rfl
    rw [hcontains, if_neg Bool.false_ne_true, LruCache.get?_put_self _ _ _ hroom]
    rfl
  | some m =>
    have hcontains : cache.contains msg.blockID = true := by
      unfold LruCache.contains
      rw [hget]
      rfl
    rw [hcontains, if_pos rfl, hget]

theorem reporters_record (s : Agent) (v w : Bool) (msg : ChildBVDecidedMessage) :
    (s.mapDecisions v fun cache => record cache msg).reporters w msg.blockID =
      if w = v then insert msg.blockProposerIndex (s.reporters w msg.blockID)
      else s.reporters w msg.blockID := by
  have hsame : ∀ cache : DecisionCache,
      (((record cache msg).get? msg.blockID).getD .empty).keys =
        insert msg.blockProposerIndex ((cache.get? msg.blockID).getD .empty).keys := by
    intro cache
    rw [get?_record]
    exact keys_emplace _ _ _
  cases v <;> cases w
  · exact hsame s.falseDecisions
  · rfl
  · rfl
  · exact hsame s.trueDecisions

/-! ### The decision -/

/-- The proposers in the order of a number. -/
def proposerOrder (n s : ℕ) : List SchainIndex := (List.range n).map fun j => (s + j) % n + 1

/-- The first proposer in the order with a true decision; 0 if there is none. -/
def firstProposer (n s : ℕ) (decisions : SchainIndex → Bool) : SchainIndex :=
  ((proposerOrder n s).find? decisions).getD 0

theorem cyclicOrder_eq (n s : ℕ) : cyclicOrder n s = proposerOrder n s := by
  unfold cyclicOrder proposerOrder
  simp only [Nat.mod_add_mod]

theorem mem_proposerOrder {n s i : ℕ} (hn : 0 < n) :
    i ∈ proposerOrder n s ↔ i ∈ Finset.Icc 1 n := by
  unfold proposerOrder
  rw [List.mem_map, Finset.mem_Icc]
  constructor
  · rintro ⟨j, -, rfl⟩
    exact ⟨Nat.succ_le_succ (Nat.zero_le _), Nat.mod_lt _ hn⟩
  · rintro ⟨hone, hle⟩
    refine ⟨(i - 1 + (n - s % n)) % n, List.mem_range.mpr (Nat.mod_lt _ hn), ?_⟩
    -- s + (i - 1 + (n - s % n)) is i - 1 and a multiple of n
    have hmod := Nat.mod_lt s hn
    have hdiv := Nat.div_add_mod s n
    have hsum : s + (i - 1 + (n - s % n)) = i - 1 + n * (s / n + 1) := by
      rw [Nat.mul_succ]
      omega
    rw [Nat.add_mod_mod, hsum, Nat.add_mul_mod_self_left, Nat.mod_eq_of_lt (by omega)]
    omega

theorem firstProposer_eq_zero_iff {n s : ℕ} {decisions : SchainIndex → Bool} (hn : 0 < n) :
    firstProposer n s decisions = 0 ↔ ∀ i ∈ Finset.Icc 1 n, decisions i = false := by
  unfold firstProposer
  constructor
  · intro h i hi
    cases hfind : (proposerOrder n s).find? decisions with
    | none => simpa using List.find?_eq_none.mp hfind i ((mem_proposerOrder hn).mpr hi)
    | some first =>
      rw [hfind] at h
      have hfirst := (mem_proposerOrder hn).mp (List.mem_of_find?_eq_some hfind)
      have hzero : first = 0 := h
      rw [hzero] at hfirst
      exact absurd (Finset.mem_Icc.mp hfirst).1 (by decide)
  · intro h
    have hnone : (proposerOrder n s).find? decisions = none :=
      List.find?_eq_none.mpr fun i hi => by simp [h i ((mem_proposerOrder hn).mp hi)]
    rw [hnone]
    rfl

/-- A block is being decided: so far `reported` have, and no decision is possible yet; or
it is decided, on the first proposer. -/
inductive Progress (c : Schain) (b r : ℕ) (decisions : SchainIndex → Bool)
    (before : List (ℕ × SchainIndex)) (reported : Finset SchainIndex) (s : Agent) : Prop
  | undecided (last : s.lastCommittedBlockID + 1 = b) (fresh : s.decidedIndices.get? b = none)
      (reporters : ∀ v, s.reporters v b = reported.filter fun i => decisions i = v)
      (pending : reported ≠ Finset.Icc 1 c.nodeCount)
      (calls : s.decideCalls.map DecideCall.pair = before)
  | decided (done : b ≤ s.lastCommittedBlockID ∨ (s.decidedIndices.get? b).isSome = true)
      (calls : s.decideCalls.map DecideCall.pair =
        before ++ [(b, firstProposer c.nodeCount r decisions)])

section Step
variable {c : Schain} {b r : ℕ} {decisions : SchainIndex → Bool} {before : List (ℕ × SchainIndex)}
  {reported : Finset SchainIndex} {s s' : Agent} {msg : ChildBVDecidedMessage}
open Agent

theorem finalState_report_of_done
    (h : msg.blockID ≤ s.lastCommittedBlockID ∨ (s.decidedIndices.get? msg.blockID).isSome = true) :
    finalState (reportConsensusAndDecideIfNeeded c msg) s = s := by
  unfold reportConsensusAndDecideIfNeeded
  rw [finalState_adaptExcept, finalState_bind_of_ok (EStateM.run_get s)]
  by_cases hlast : msg.blockID ≤ s.lastCommittedBlockID
  · rw [if_pos hlast]
    rfl
  · rw [if_neg hlast]
    have hcontains : s.decidedIndices.contains msg.blockID = true := h.resolve_left hlast
    cases hindex : decide (msg.blockProposerIndex ≤ c.nodeCount) with
    | false => exact finalState_bind_of_error (checkState_run_of_false rfl _ s)
    | true =>
      rw [finalState_bind_of_ok (checkState_run_of_true rfl _ s), hcontains, if_pos rfl]
      rfl

/-- Before that it is recorded, and may decide. -/
theorem finalState_report_of_undecided (hlast : s.lastCommittedBlockID < msg.blockID)
    (hfresh : s.decidedIndices.get? msg.blockID = none)
    (hindex : msg.blockProposerIndex ≤ c.nodeCount) :
    finalState (reportConsensusAndDecideIfNeeded c msg) s =
      finalState (decideIfNeeded c msg.blockID)
        (s.mapDecisions msg.value.toBool fun cache => record cache msg) := by
  unfold reportConsensusAndDecideIfNeeded
  have hcontains : s.decidedIndices.contains msg.blockID = false := by
    unfold LruCache.contains
    rw [hfresh]
    rfl
  rw [finalState_adaptExcept, finalState_bind_of_ok (EStateM.run_get s),
    if_neg (Nat.not_le.mpr hlast),
    finalState_bind_of_ok (checkState_run_of_true (decide_eq_true hindex) _ s), hcontains,
    if_neg Bool.false_ne_true]
  exact finalState_bind_of_ok (EStateM.run_set _ s)

theorem Progress.of_decision (halike : Alike s s')
    (hcalls : s.decideCalls.map DecideCall.pair = before) (stats : Bytes) :
    Progress c b r decisions before reported
      (s'.withDecision c ⟨b, firstProposer c.nodeCount r decisions, stats⟩) := by
  refine .decided (.inr ?_) ?_
  · show ((s'.decidedIndices.put b _).get? b).isSome = true
    rw [LruCache.get?_put_self _ _ _ (by decide)]
    rfl
  · show (s'.decideCalls ++ [_]).map DecideCall.pair = _
    rw [List.map_append, halike.decideCalls, hcalls]
    rfl

theorem known_of_reporters
    (h : ∀ v, s.reporters v b = reported.filter fun i => decisions i = v) (i : SchainIndex) :
    s.known b i = if i ∈ reported then some (decisions i) else none := by
  unfold Agent.known
  rw [h true, h false]
  cases hd : decisions i <;> simp [hd]

theorem Progress.step (hn : 0 < c.nodeCount)
    (hseed : ∀ s : Agent, s.lastCommittedBlockID + 1 = b → seed c s b = .ok r)
    (h : Progress c b r decisions before reported s) (hblock : msg.blockID = b)
    (hindex : msg.blockProposerIndex ∈ Finset.Icc 1 c.nodeCount)
    (hvalue : msg.value.toBool = decisions msg.blockProposerIndex)
    (hreported : reported ⊆ Finset.Icc 1 c.nodeCount) :
    Progress c b r decisions before (insert msg.blockProposerIndex reported)
      (finalState (reportConsensusAndDecideIfNeeded c msg) s) := by
  subst hblock
  cases h with
  | decided done calls =>
    rw [finalState_report_of_done done]
    exact .decided done calls
  | undecided last fresh reporters pending calls =>
    rw [finalState_report_of_undecided (Nat.lt_of_succ_le last.le) fresh
      (Finset.mem_Icc.mp hindex).2]
    -- the agent after the recording, before the decision
    generalize hs1 : (s.mapDecisions msg.value.toBool fun cache => record cache msg) = s1
    generalize hall : insert msg.blockProposerIndex reported = reported'
    have hlast : s1.lastCommittedBlockID + 1 = msg.blockID := by
      rw [← hs1, ← last]
      cases msg.value.toBool <;> rfl
    have hfresh : s1.decidedIndices.get? msg.blockID = none := by
      rw [← hs1, ← fresh]
      cases msg.value.toBool <;> rfl
    have hcalls : s1.decideCalls.map DecideCall.pair = before := by
      rw [← hs1, ← calls]
      cases msg.value.toBool <;> rfl
    have hreporters : ∀ v, s1.reporters v msg.blockID =
        reported'.filter fun i => decisions i = v := by
      intro v
      rw [← hs1, reporters_record, reporters v, ← hall, Finset.filter_insert, hvalue]
      simp only [eq_comm]
    have hsubset : reported' ⊆ Finset.Icc 1 c.nodeCount := by
      rw [← hall]
      exact Finset.insert_subset hindex hreported
    by_cases htrue : s1.reporters true msg.blockID = ∅
    · -- nobody has said yes yet
      obtain ⟨s2, halike, hrun⟩ := decideIfNeeded_run_of_none hn htrue
      have hfalse : ∀ i ∈ reported', decisions i = false := by
        intro i hi
        rw [hreporters true, Finset.filter_eq_empty_iff] at htrue
        simpa using htrue hi
      have hreported' : s1.reporters false msg.blockID = reported' := by
        rw [hreporters false, Finset.filter_true_of_mem hfalse]
      rw [hreported'] at hrun
      by_cases hcard : reported'.card = c.nodeCount
      · rw [if_pos hcard] at hrun
        obtain ⟨stats, hrun⟩ := hrun
        have hcomplete : reported' = Finset.Icc 1 c.nodeCount :=
          Finset.eq_of_subset_of_card_le hsubset (by simp [hcard])
        have hzero : firstProposer c.nodeCount r decisions = 0 :=
          (firstProposer_eq_zero_iff hn).mpr (hcomplete ▸ hfalse)
        rw [finalState_of_ok hrun, ← hzero]
        exact .of_decision halike hcalls stats
      · rw [if_neg hcard] at hrun
        rw [finalState_of_ok hrun]
        refine .undecided ?_ ?_ (fun v => ?_) (fun hcomplete => hcard ?_) ?_
        · rw [halike.lastCommittedBlockID, hlast]
        · rw [halike.decidedIndices, hfresh]
        · rw [halike.reporters, hreporters]
        · rw [hcomplete, Nat.card_Icc, Nat.add_sub_cancel]
        · rw [halike.decideCalls, hcalls]
    · obtain ⟨s2, halike, hrun⟩ := decideIfNeeded_run_of_some hn (hseed s1 hlast) htrue
      have hknown := known_of_reporters hreporters
      rw [cyclicOrder_eq] at hrun
      cases hscan : scan? (s1.known msg.blockID) (proposerOrder c.nodeCount r) with
      | some i =>
        rw [hscan] at hrun
        obtain ⟨stats, hrun⟩ := hrun
        have hfind : (proposerOrder c.nodeCount r).find? decisions = some i :=
          find?_of_scan? (fun x v hx => by
            rw [hknown] at hx
            split_ifs at hx
            exact Option.some.inj hx) hscan
        have hfirst : firstProposer c.nodeCount r decisions = i := by
          unfold firstProposer
          rw [hfind]
          rfl
        rw [finalState_of_ok hrun, ← hfirst]
        exact .of_decision halike hcalls stats
      | none =>
        rw [hscan] at hrun
        rw [finalState_of_ok hrun]
        refine .undecided ?_ ?_ (fun v => ?_) (fun hcomplete => htrue ?_) ?_
        · rw [halike.lastCommittedBlockID, hlast]
        · rw [halike.decidedIndices, hfresh]
        · rw [halike.reporters, hreporters]
        · -- with every report in, the scan finds a yes if there is one
          have hfind : scan? (s1.known msg.blockID) (proposerOrder c.nodeCount r) =
              (proposerOrder c.nodeCount r).find? decisions :=
            scan?_eq_find? fun x hx => by
              rw [hknown, hcomplete, if_pos ((mem_proposerOrder hn).mp hx)]
          rw [hfind] at hscan
          rw [hreporters true, Finset.filter_eq_empty_iff, hcomplete]
          intro i hi
          exact List.find?_eq_none.mp hscan i ((mem_proposerOrder hn).mpr hi)
        · rw [halike.decideCalls, hcalls]

end Step

/-! ### Every order of reports -/

/-- The number block `b` starts from, given the hash of the block before it. -/
def seedOf (b : ℕ) (previousHash : Hash) : ℕ := if b ≤ 1 then 1 else firstUint64 previousHash

/-- A node on which children of block `b` report, each once and with the decision it has.
The node has committed the block before `b` and nothing of `b` was reported to it yet; of
other blocks it may hold anything. -/
structure DecisionRun (n b : ℕ) (previousHash : Hash) (decisions : SchainIndex → Bool) where
  chain : Schain
  agent : Agent
  reports : List ChildBVDecidedMessage
  nodeCount : chain.nodeCount = n
  previousBlock : 1 < b → chain.blockHash (b - 1) = some previousHash
  last : agent.lastCommittedBlockID + 1 = b
  noDecisions : ∀ v, (agent.decisions v).get? b = none
  undecided : agent.decidedIndices.get? b = none
  unsigned : ∀ call ∈ agent.decideCalls, call.blockID ≠ b
  ofBlock : ∀ m ∈ reports, m.blockID = b
  ofChild : ∀ m ∈ reports, m.blockProposerIndex ∈ Finset.Icc 1 n
  value : ∀ m ∈ reports, m.value.toBool = decisions m.blockProposerIndex
  once : (reports.map ChildBVDecidedMessage.blockProposerIndex).Nodup

namespace DecisionRun
variable {n b : ℕ} {previousHash : Hash} {decisions : SchainIndex → Bool}
  (run : DecisionRun n b previousHash decisions)

def final : Agent :=
  run.reports.foldl (fun s m => finalState (reportConsensusAndDecideIfNeeded run.chain m) s)
    run.agent

/-- The pairs signed before the reports, and those signed after them. -/
def signedBefore : List (ℕ × SchainIndex) := run.agent.decideCalls.map DecideCall.pair

def signed : List (ℕ × SchainIndex) := run.final.decideCalls.map DecideCall.pair

/-- Every child has reported. -/
def Complete : Prop := run.reports.length = n

/-- The children that have reported. -/
def reported : Finset SchainIndex :=
  (run.reports.map ChildBVDecidedMessage.blockProposerIndex).toFinset

theorem seed_eq (s : Agent) (h : s.lastCommittedBlockID + 1 = b) :
    seed run.chain s b = .ok (seedOf b previousHash) := by
  unfold seed seedOf
  by_cases hb : b ≤ 1
  · rw [if_pos hb, if_pos hb]
    rfl
  · have hlast : decide (b - 1 ≤ s.lastCommittedBlockID) = true := decide_eq_true (by omega)
    rw [if_neg hb, if_neg hb, hlast, run.previousBlock (by omega)]
    rfl

theorem progress_start (hn : 0 < n) :
    Progress run.chain b (seedOf b previousHash) decisions run.signedBefore ∅ run.agent := by
  refine .undecided run.last run.undecided (fun v => ?_) ?_ rfl
  · unfold Agent.reporters
    rw [run.noDecisions v]
    rfl
  · intro hempty
    have hmem : 1 ∈ Finset.Icc 1 run.chain.nodeCount := by
      rw [run.nodeCount]
      exact Finset.mem_Icc.mpr ⟨le_rfl, hn⟩
    rw [← hempty] at hmem
    exact absurd hmem (Finset.notMem_empty 1)

/-- The run lemma: the reports are taken one by one. -/
theorem progress_final (hn : 0 < n) :
    Progress run.chain b (seedOf b previousHash) decisions run.signedBefore run.reported
      run.final := by
  have hcount : 0 < run.chain.nodeCount := run.nodeCount.symm ▸ hn
  have key : ∀ (ms : List ChildBVDecidedMessage) (s : Agent) (reported : Finset SchainIndex),
      (∀ m ∈ ms, m ∈ run.reports) → reported ⊆ Finset.Icc 1 run.chain.nodeCount →
      Progress run.chain b (seedOf b previousHash) decisions run.signedBefore reported s →
      Progress run.chain b (seedOf b previousHash) decisions run.signedBefore
        (reported ∪ (ms.map ChildBVDecidedMessage.blockProposerIndex).toFinset)
        (ms.foldl (fun s m => finalState (reportConsensusAndDecideIfNeeded run.chain m) s) s) := by
    intro ms
    induction ms with
    | nil =>
      intro s reported _ _ h
      simpa using h
    | cons m rest ih =>
      intro s reported hmem hsub h
      have hm := hmem m List.mem_cons_self
      have hindex : m.blockProposerIndex ∈ Finset.Icc 1 run.chain.nodeCount := by
        rw [run.nodeCount]
        exact run.ofChild m hm
      have hnext := ih _ _ (fun m' hm' => hmem m' (List.mem_cons_of_mem m hm'))
        (Finset.insert_subset hindex hsub)
        (h.step hcount run.seed_eq (run.ofBlock m hm) hindex (run.value m hm) hsub)
      rw [List.map_cons, List.toFinset_cons, Finset.union_insert, ← Finset.insert_union]
      exact hnext
  have hall := key run.reports run.agent ∅ (fun m hm => hm) (Finset.empty_subset _)
    (run.progress_start hn)
  rw [Finset.empty_union] at hall
  exact hall

theorem reported_of_complete (h : run.Complete) : run.reported = Finset.Icc 1 n := by
  refine Finset.eq_of_subset_of_card_le (fun i hi => ?_) ?_
  · obtain ⟨m, hm, rfl⟩ := List.mem_map.mp (List.mem_toFinset.mp hi)
    exact run.ofChild m hm
  · unfold reported
    rw [List.toFinset_card_of_nodup run.once, List.length_map, h, Nat.card_Icc, Nat.add_sub_cancel]

theorem signed_cases (hn : 0 < n) :
    run.signed = run.signedBefore ∨
      run.signed = run.signedBefore ++
        [(b, firstProposer n (seedOf b previousHash) decisions)] := by
  cases run.progress_final hn with
  | undecided _ _ _ _ calls => exact .inl calls
  | decided _ calls =>
    rw [run.nodeCount] at calls
    exact .inr calls

theorem signed_of_complete (hn : 0 < n) (h : run.Complete) :
    run.signed = run.signedBefore ++ [(b, firstProposer n (seedOf b previousHash) decisions)] := by
  cases run.progress_final hn with
  | undecided _ _ _ pending _ =>
    refine absurd ?_ pending
    rw [run.reported_of_complete h, run.nodeCount]
  | decided _ calls =>
    rw [run.nodeCount] at calls
    exact calls

/-- So for this block it signs no other proposer. -/
theorem eq_firstProposer_of_mem_signed (hn : 0 < n) {q : SchainIndex} (h : (b, q) ∈ run.signed) :
    q = firstProposer n (seedOf b previousHash) decisions := by
  have hbefore : (b, q) ∉ run.signedBefore := by
    intro hmem
    obtain ⟨call, hcall, hpair⟩ := List.mem_map.mp hmem
    exact run.unsigned call hcall (congrArg Prod.fst hpair)
  rcases run.signed_cases hn with hsigned | hsigned
  · rw [hsigned] at h
    exact absurd h hbefore
  · rw [hsigned] at h
    rcases List.mem_append.mp h with h | h
    · exact absurd h hbefore
    · exact congrArg Prod.snd (List.mem_singleton.mp h)

end DecisionRun

/-- Whatever the order of the reports, they cause one call of `decideBlock`, for the first
proposer with a true decision, or for 0 if there is none; and no set of nodes with faulty
nodes below a third signs another proposer with enough shares. -/
theorem decideBlock_confluent {n b : ℕ} {previousHash : Hash} {decisions : SchainIndex → Bool}
    (hn : 0 < n) {byzantine : Finset SchainIndex} (hbyzantine : 3 * byzantine.card < n) :
    (∀ run : DecisionRun n b previousHash decisions, run.Complete →
      run.signed = run.signedBefore ++ [(b, firstProposer n (seedOf b previousHash) decisions)]) ∧
    (firstProposer n (seedOf b previousHash) decisions = 0 ↔
      ∀ i ∈ Finset.Icc 1 n, decisions i = false) ∧
    ∀ (node : SchainIndex → DecisionRun n b previousHash decisions) (q : SchainIndex)
      (signers : Finset SchainIndex), q ≠ firstProposer n (seedOf b previousHash) decisions →
      (∀ i ∈ signers, i ∉ byzantine → (b, q) ∈ (node i).signed) →
      signers.card < getRequiredSigners n := by
  refine ⟨fun run => run.signed_of_complete hn, firstProposer_eq_zero_iff hn, ?_⟩
  intro node q signers hq hsigned
  have hfaulty : signers ⊆ byzantine := by
    intro i hi
    by_contra hcorrect
    exact hq ((node i).eq_firstProposer_of_mem_signed hn (hsigned i hi hcorrect))
  exact (Finset.card_le_card hfaulty).trans_lt (lt_getRequiredSigners hbyzantine)

/-- Block 1 of four nodes: 1 and 3 are decided true, and the order starts at 2. -/
def fourReports : DecisionRun 4 1 [] fun i => i == 1 || i == 3 where
  chain := ⟨4, fun _ => none, fun _ _ => false⟩
  agent := ⟨.empty, .empty, .empty, 0, []⟩
  reports := [⟨1, 1, 1, 0, 0, 0⟩, ⟨1, 4, 0, 1, 0, 0⟩, ⟨1, 3, 1, 2, 0, 0⟩, ⟨1, 2, 0, 0, 0, 0⟩]
  nodeCount := rfl
  previousBlock := by decide
  last := rfl
  noDecisions := by decide
  undecided := rfl
  unsigned := by decide
  ofBlock := by decide
  ofChild := by decide
  value := by decide
  once := by decide

theorem decideBlock_confluent_fourReports : fourReports.signed = [(1, 3)] :=
  (decideBlock_confluent (n := 4) (by decide)
    (by decide : 3 * ({2} : Finset SchainIndex).card < 4)).1 fourReports rfl

end SkaleConsensus.BlockConsensus
