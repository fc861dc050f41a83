import SkaleConsensus.Network.Message

/-! Messages that wait.

`networkReadLoop` takes a message once: its hash is remembered, and a second copy is ignored.
A message of a later block or a later round is not posted but deferred, in a list for its
block id. A second thread pulls the lists of all blocks up to the current one in one batch and
looks at the messages of the batch again, one by one: each is posted, deferred once more, or
dropped when its block is too old.

What looks at a message throws on a block proposer index that no node has, and the exception
ends the whole batch. The messages behind it are in no list any more and, since their hashes
are known, are not taken again (`neighbour_lost`). `accounted_of_wellIndexed` and
`accounted_of_harmless` say what holds when no such index arrives. Three fields of the state
are not the code's and only record what happened. -/
namespace SkaleConsensus.Network
open Library Machine

def MAX_DEFERRED_QUEUE_SIZE_FOR_BLOCK : ℕ := 1024
def KNOWN_MSG_HASHES_SIZE : ℕ := 1024

def MsgType.isOracle : MsgType → Bool
  | .oracleReqBroadcast | .oracleRsp => true
  | .bvBroadcast | .auxBroadcast | .blockSignBroadcast => false

/-- A message that was taken. The hash of a message can be forgotten and the message taken
again, so that it is told apart by the number of messages taken before it. -/
structure Accepted where
  number : ℕ
  message : NetworkMessage
deriving DecidableEq, Repr

/-- What `shouldPost` asks of the binary consensus that a message is for. -/
structure Child where
  currentRound : ℕ
  decided : Bool
deriving DecidableEq, Repr

structure MessageState where
  lastCommittedBlockID : ℕ
  knownMsgHashes : LruCache Bytes Bool KNOWN_MSG_HASHES_SIZE
  /-- The list of a block id; a block id that is not in the map has the empty one. -/
  deferredMessageQueue : ℕ → List Accepted
  /-- What the deferred messages loop has pulled and not looked at yet. -/
  deferredMessages : List Accepted
  /-- What was posted to the schain. -/
  messageQueue : List Accepted
  /-- What was posted to the oracle result assembly agent. -/
  oracleQueue : List Accepted
  /-- Recorded: the messages taken. -/
  accepted : List Accepted
  /-- Recorded: the messages that were too old. -/
  dropped : List Accepted
  /-- Recorded: the messages pushed out of their list, with the list then behind them. -/
  pushedOut : List (Accepted × List Accepted)

/-- The chain a network belongs to. -/
structure MessageConfig where
  nodeCount : ℕ
  catchupBlocks : ℕ
  blake3 : Bytes → Hash

def addToDeferredMessageQueue (e : Accepted) (s : MessageState) : MessageState :=
  match s.deferredMessageQueue e.message.blockID ++ [e] with
  | [] => s
  | front :: later =>
    if later.length + 1 > MAX_DEFERRED_QUEUE_SIZE_FOR_BLOCK then
      { s with
        deferredMessageQueue := Function.update s.deferredMessageQueue e.message.blockID later
        pushedOut := s.pushedOut ++ [(front, later)] }
    else
      { s with
        deferredMessageQueue :=
          Function.update s.deferredMessageQueue e.message.blockID (front :: later) }

/-- The map is walked in the order of the block ids. -/
def pullMessagesForCurrentBlockID (lastCommitted : ℕ) (s : MessageState) : MessageState :=
  let currentBlockID := lastCommitted + 1
  { s with
    deferredMessages := (List.range (currentBlockID + 1)).flatMap s.deferredMessageQueue
    deferredMessageQueue := fun b => if b ≤ currentBlockID then [] else s.deferredMessageQueue b }

/-- `Schain::postMessage`. -/
def postMessage (e : Accepted) : EStateM String MessageState Unit := do
  checkState (e.message.blockID != 0) "( uint64_t ) _me->getMessage()->getBlockId() != 0"
  modify fun s => {s with messageQueue := s.messageQueue ++ [e]}

section Code
variable (c : MessageConfig)

def getChild (key : ProtocolKey) (child : Child) : Except String Child := do
  checkArgument (decide (0 < key.blockProposerIndex)) "( uint64_t ) bpi > 0"
  checkArgument (decide (key.blockProposerIndex ≤ c.nodeCount))
    "( uint64_t ) bpi <= ( uint64_t ) getSchain()->getNodeCount()"
  return child

def shouldPost (m : NetworkMessage) (child : Child) : Except String Bool := do
  if m.msgType = .blockSignBroadcast then return true
  let key : ProtocolKey := ⟨m.blockID, m.blockProposerIndex⟩
  let currentRound := (← getChild c key child).currentRound
  if m.r > currentRound + 1 then return false
  if m.r = currentRound + 1 then return (← getChild c key child).decided
  return true

/-- The last committed block id is read once, at the start. -/
def postDeferOrDrop (lastCommitted : ℕ) (child : Child) (e : Accepted) :
    EStateM String MessageState Unit := do
  let currentBlockID := lastCommitted + 1
  let bid := e.message.blockID
  if bid > currentBlockID then
    modify (addToDeferredMessageQueue e)
  else if bid + MAX_ACTIVE_CONSENSUSES ≤ currentBlockID then
    modify fun s => {s with dropped := s.dropped ++ [e]}
  else if e.message.msgType.isOracle then
    modify fun s => {s with oracleQueue := s.oracleQueue ++ [e]}
  else match shouldPost c e.message child with
    | .error what => throw what
    | .ok true => postMessage e
    | .ok false => modify (addToDeferredMessageQueue e)

def accept (m : NetworkMessage) (s : MessageState) : MessageState :=
  { s with
    knownMsgHashes := s.knownMsgHashes.put (toHex (c.blake3 m.hashInput)) true
    accepted := s.accepted ++ [⟨s.accepted.length, m⟩] }

/-- One message of `networkReadLoop`; what it throws is logged. -/
def readMessage (lastCommitted : ℕ) (child : Child) (m : NetworkMessage) :
    EStateM String MessageState Unit := do
  if m.blockID ≤ c.catchupBlocks then return
  let s ← get
  -- `putIfDoesNotExist`
  if s.knownMsgHashes.contains (toHex (c.blake3 m.hashInput)) then return
  let e : Accepted := ⟨s.accepted.length, m⟩
  set (accept c m s)
  if m.msgType.isOracle then
    modify fun s => {s with oracleQueue := s.oracleQueue ++ [e]}
  else
    postDeferOrDrop c lastCommitted child e

/-- The next message of the batch; an exception ends the batch. -/
def examineMessage (lastCommitted : ℕ) (child : Child) (s : MessageState) : Option MessageState :=
  match s.deferredMessages with
  | [] => none
  | e :: rest =>
    match (postDeferOrDrop c lastCommitted child e).run {s with deferredMessages := rest} with
    | .ok _ s' => some s'
    | .error _ s' => some {s' with deferredMessages := []}

end Code

/-! ### The two threads -/

/-- What can happen. The last committed block id is what the thread read of it: a commit may
have passed it by the time the thread acts. -/
inductive MessageEvent where
  | receive (m : NetworkMessage) (lastCommitted : ℕ) (child : Child)
  | commit (blockID : ℕ)
  | pull (lastCommitted : ℕ)
  | examine (lastCommitted : ℕ) (child : Child)
deriving DecidableEq, Repr

def MessageState.initial : MessageState where
  lastCommittedBlockID := 0
  knownMsgHashes := .empty
  deferredMessageQueue _ := []
  deferredMessages := []
  messageQueue := []
  oracleQueue := []
  accepted := []
  dropped := []
  pushedOut := []

def messageMachine (c : MessageConfig) : Machine MessageState MessageEvent where
  initial := .initial
  step event s :=
    match event with
    | .receive m lastCommitted child =>
      if lastCommitted ≤ s.lastCommittedBlockID then
        some (finalState (readMessage c lastCommitted child m) s)
      else none
    | .commit blockID =>
      if s.lastCommittedBlockID < blockID then some {s with lastCommittedBlockID := blockID}
      else none
    | .pull lastCommitted =>
      if lastCommitted ≤ s.lastCommittedBlockID ∧ s.deferredMessages = [] then
        some (pullMessagesForCurrentBlockID lastCommitted s)
      else none
    | .examine lastCommitted child =>
      if lastCommitted ≤ s.lastCommittedBlockID then examineMessage c lastCommitted child s
      else none

namespace MessageState

/-- In the list of its block, or in the batch that is being looked at. -/
def Deferred (s : MessageState) (e : Accepted) : Prop :=
  e ∈ s.deferredMessageQueue e.message.blockID ∨ e ∈ s.deferredMessages

def TooOld (s : MessageState) (e : Accepted) : Prop :=
  e ∈ s.dropped ∧ e.message.blockID + MAX_ACTIVE_CONSENSUSES ≤ s.lastCommittedBlockID + 1

/-- Pushed out when `bound` messages of its block, all taken and no two the same, had come
behind it. -/
def PushedOut (bound : ℕ) (s : MessageState) (e : Accepted) : Prop :=
  ∃ later, (e, later) ∈ s.pushedOut ∧ bound ≤ later.length ∧ (e :: later).Nodup ∧
    ∀ x ∈ later, x ∈ s.accepted ∧ x.message.blockID = e.message.blockID

def Accounted (bound : ℕ) (s : MessageState) (e : Accepted) : Prop :=
  e ∈ s.messageQueue ∨ s.Deferred e ∨ s.TooOld e ∨ s.PushedOut bound e

/-- The messages of a block that are deferred, those of the batch first. -/
def held (s : MessageState) (b : ℕ) : List Accepted :=
  s.deferredMessages.filter (fun e => e.message.blockID = b) ++ s.deferredMessageQueue b

theorem mem_held {s : MessageState} {e : Accepted} :
    e ∈ s.held e.message.blockID ↔ s.Deferred e := by
  simp [held, Deferred, or_comm]

theorem Accounted.mono {bound : ℕ} {s s' : MessageState} {e : Accepted}
    (h : s.Accounted bound e) (hposted : s.messageQueue ⊆ s'.messageQueue)
    (hdropped : s.dropped ⊆ s'.dropped) (hpushed : s.pushedOut ⊆ s'.pushedOut)
    (haccepted : s.accepted ⊆ s'.accepted)
    (hcommitted : s.lastCommittedBlockID ≤ s'.lastCommittedBlockID)
    (hdeferred : s.Deferred e → s'.Accounted bound e) : s'.Accounted bound e := by
  obtain hmem | hmem | ⟨hmem, hold⟩ | ⟨later, hmem, hlength, hnodup, hlater⟩ := h
  · exact .inl (hposted hmem)
  · exact hdeferred hmem
  · exact .inr (.inr (.inl ⟨hdropped hmem, by omega⟩))
  · exact .inr (.inr (.inr ⟨later, hpushed hmem, hlength, hnodup,
      fun x hx => ⟨haccepted (hlater x hx).1, (hlater x hx).2⟩⟩))

end MessageState

/-! ### What one message can do -/

def NetworkMessage.WellIndexed (nodeCount : ℕ) (m : NetworkMessage) : Prop :=
  m.msgType = .bvBroadcast ∨ m.msgType = .auxBroadcast →
    0 < m.blockProposerIndex ∧ m.blockProposerIndex ≤ nodeCount

instance (nodeCount : ℕ) (m : NetworkMessage) : Decidable (m.WellIndexed nodeCount) :=
  inferInstanceAs (Decidable (_ → _))

/-- A message that `postDeferOrDrop` handles without an exception. -/
structure Examinable (c : MessageConfig) (m : NetworkMessage) : Prop where
  blockID_pos : 0 < m.blockID
  not_oracle : m.msgType.isOracle = false
  wellIndexed : m.WellIndexed c.nodeCount

/-- What `postDeferOrDrop` does with a message it handles. -/
inductive Handled (lastCommitted : ℕ) (e : Accepted) (s : MessageState) : MessageState → Prop
  | deferred : Handled lastCommitted e s (addToDeferredMessageQueue e s)
  | dropped (hold : e.message.blockID + MAX_ACTIVE_CONSENSUSES ≤ lastCommitted + 1) :
      Handled lastCommitted e s {s with dropped := s.dropped ++ [e]}
  | posted : Handled lastCommitted e s {s with messageQueue := s.messageQueue ++ [e]}

section Handling
variable {c : MessageConfig} {e : Accepted} {s s' : MessageState} {child : Child}

theorem getChild_eq_ok {m : NetworkMessage}
    (h : 0 < m.blockProposerIndex ∧ m.blockProposerIndex ≤ c.nodeCount) :
    getChild c ⟨m.blockID, m.blockProposerIndex⟩ child = .ok child := by
  unfold getChild checkArgument
  rw [decide_eq_true h.1, decide_eq_true h.2]
  rfl

theorem shouldPost_returns {m : NetworkMessage} (h : Examinable c m) (child : Child) :
    ∃ post, shouldPost c m child = .ok post := by
  unfold shouldPost
  cases htype : m.msgType with
  | blockSignBroadcast => exact ⟨true, rfl⟩
  | oracleReqBroadcast | oracleRsp =>
    have horacle := h.not_oracle
    rw [htype] at horacle
    cases horacle
  | bvBroadcast | auxBroadcast =>
    have hindex := h.wellIndexed (by simp [htype])
    simp only [reduceCtorEq, if_false, getChild_eq_ok hindex, bind, Except.bind]
    split_ifs
    · exact ⟨false, rfl⟩
    · exact ⟨child.decided, rfl⟩
    · exact ⟨true, rfl⟩

theorem postDeferOrDrop_handled (h : Examinable c e.message) (lastCommitted : ℕ) (child : Child)
    (s : MessageState) :
    ∃ s', (postDeferOrDrop c lastCommitted child e).run s = .ok () s' ∧
      Handled lastCommitted e s s' := by
  obtain ⟨post, hpost⟩ := shouldPost_returns h child
  have hid : (e.message.blockID != 0) = true := bne_iff_ne.mpr h.blockID_pos.ne'
  unfold postDeferOrDrop postMessage
  dsimp only
  rw [hpost, h.not_oracle]
  split_ifs with hfuture hold horacle
  · exact ⟨_, rfl, .deferred⟩
  · exact ⟨_, rfl, .dropped hold⟩
  · cases horacle
  · cases post with
    | true => exact ⟨_, run_checkState_bind_of_true hid _ _ _, .posted⟩
    | false => exact ⟨_, rfl, .deferred⟩

/-- The list of the block gets longer, or loses its first message to stay as long as it may. -/
theorem addToDeferredMessageQueue_cases (e : Accepted) (s : MessageState) :
    (addToDeferredMessageQueue e s =
        { s with
          deferredMessageQueue := Function.update s.deferredMessageQueue e.message.blockID
            (s.deferredMessageQueue e.message.blockID ++ [e]) }) ∨
      ∃ front later, s.deferredMessageQueue e.message.blockID ++ [e] = front :: later ∧
        MAX_DEFERRED_QUEUE_SIZE_FOR_BLOCK ≤ later.length ∧
        addToDeferredMessageQueue e s =
          { s with
            deferredMessageQueue := Function.update s.deferredMessageQueue e.message.blockID later
            pushedOut := s.pushedOut ++ [(front, later)] } := by
  unfold addToDeferredMessageQueue
  cases hlist : s.deferredMessageQueue e.message.blockID ++ [e] with
  | nil => simp at hlist
  | cons front later =>
    dsimp only
    split_ifs with hfull
    · exact .inr ⟨front, later, rfl, Nat.le_of_lt_succ hfull, rfl⟩
    · exact .inl rfl

end Handling

/-! ### The invariant -/

theorem flatMap_range_ite {α : Type} (n b : ℕ) (list : List α) :
    ((List.range n).flatMap fun i => if i = b then list else []) = if b < n then list else [] := by
  induction n with
  | zero => rfl
  | succ n ih =>
    rw [List.range_succ, List.flatMap_append, ih, List.flatMap_singleton]
    split_ifs <;> first | omega | simp

/-- Every message taken is accounted for, those in hand apart; what is deferred can be looked at
without an exception, and no message is deferred twice. -/
structure Tracked (c : MessageConfig) (inHand : List Accepted) (s : MessageState) : Prop where
  numbered : ∀ e ∈ s.accepted, e.number < s.accepted.length
  held : ∀ b, ∀ e ∈ s.held b,
    e.message.blockID = b ∧ e ∈ s.accepted ∧ Examinable c e.message
  nodup : ∀ b, (s.held b).Nodup
  accounted : ∀ e ∈ s.accepted, e ∉ inHand → e.message.msgType.isOracle = false →
    s.Accounted MAX_DEFERRED_QUEUE_SIZE_FOR_BLOCK e

namespace Tracked
variable {c : MessageConfig} {e : Accepted} {s s' : MessageState} {inHand : List Accepted}

theorem initial : Tracked c [] .initial where
  numbered := nofun
  held := nofun
  nodup _ := List.nodup_nil
  accounted := nofun

/-- Nothing that is deferred or accounted for depends on what else the state holds. -/
theorem of_grows (h : Tracked c inHand s) (haccepted : s'.accepted = s.accepted)
    (hheld : ∀ b, s'.held b = s.held b) (hposted : s.messageQueue ⊆ s'.messageQueue)
    (hdropped : s.dropped ⊆ s'.dropped) (hpushed : s.pushedOut ⊆ s'.pushedOut)
    (hcommitted : s.lastCommittedBlockID ≤ s'.lastCommittedBlockID) : Tracked c inHand s' where
  numbered := by
    rw [haccepted]
    exact h.numbered
  held b e he := by
    rw [hheld] at he
    rw [haccepted]
    exact h.held b e he
  nodup b := by
    rw [hheld]
    exact h.nodup b
  accounted e he hhand horacle := by
    rw [haccepted] at he
    refine (h.accounted e he hhand horacle).mono hposted hdropped hpushed
      (haccepted ▸ List.Subset.refl _) hcommitted fun hdeferred => ?_
    exact .inr (.inl (MessageState.mem_held.mp (hheld _ ▸ MessageState.mem_held.mpr hdeferred)))

/-- The message in hand is accounted for too. -/
theorem close (h : Tracked c [e] s)
    (he : e.message.msgType.isOracle = false → s.Accounted MAX_DEFERRED_QUEUE_SIZE_FOR_BLOCK e) :
    Tracked c [] s where
  numbered := h.numbered
  held := h.held
  nodup := h.nodup
  accounted x hx _ horacle := by
    by_cases hxe : x = e
    · exact hxe ▸ he (hxe ▸ horacle)
    · exact h.accounted x hx (by simpa using hxe) horacle

/-- The state after the list of `e` has become `list`. -/
theorem requeue (h : Tracked c [e] s) {list : List Accepted}
    {pushed : List (Accepted × List Accepted)}
    (hnodup : (s.held e.message.blockID ++ [e]).Nodup)
    (hheld : ∀ x ∈ s.held e.message.blockID ++ [e],
      x.message.blockID = e.message.blockID ∧ x ∈ s.accepted ∧ Examinable c x.message)
    (hlist : list.Sublist (s.deferredMessageQueue e.message.blockID ++ [e])) (he : e ∈ list)
    (hpushed : s.pushedOut ⊆ pushed)
    (hs' : s' = { s with
      deferredMessageQueue := Function.update s.deferredMessageQueue e.message.blockID list
      pushedOut := pushed })
    (hlost : ∀ x ∈ s.deferredMessageQueue e.message.blockID, x ∉ list →
      s'.PushedOut MAX_DEFERRED_QUEUE_SIZE_FOR_BLOCK x) : Tracked c [] s' := by
  have hother : ∀ b, b ≠ e.message.blockID → s'.held b = s.held b := by
    intro b hb
    subst hs'
    simp [MessageState.held, hb]
  have hsame : (s'.held e.message.blockID).Sublist (s.held e.message.blockID ++ [e]) := by
    subst hs'
    simpa [MessageState.held] using hlist
  have haccepted : s'.accepted = s.accepted := by rw [hs']
  refine close (e := e) ⟨?_, ?_, ?_, ?_⟩ fun _ => ?_
  · rw [haccepted]
    exact h.numbered
  · intro b x hx
    rw [haccepted]
    by_cases hb : b = e.message.blockID
    · exact hb ▸ hheld x (hsame.subset (hb ▸ hx))
    · exact h.held b x (hother b hb ▸ hx)
  · intro b
    by_cases hb : b = e.message.blockID
    · exact hb ▸ hnodup.sublist hsame
    · exact hother b hb ▸ h.nodup b
  · intro x hx hhand horacle
    rw [haccepted] at hx
    refine (h.accounted x hx hhand horacle).mono ?_ ?_ ?_ ?_ ?_ fun hdeferred => ?_
    · rw [hs']
      exact List.Subset.refl _
    · rw [hs']
      exact List.Subset.refl _
    · rw [hs']
      exact hpushed
    · rw [hs']
      exact List.Subset.refl _
    · rw [hs']
    · obtain hqueue | hbatch := hdeferred
      · by_cases hblock : x.message.blockID = e.message.blockID
        · rw [hblock] at hqueue
          by_cases hx : x ∈ list
          · exact .inr (.inl (.inl (by simpa [hs', hblock] using hx)))
          · exact .inr (.inr (.inr (hlost x hqueue hx)))
        · exact .inr (.inl (.inl (by simpa [hs', hblock] using hqueue)))
      · exact .inr (.inl (.inr (by simpa [hs'] using hbatch)))
  · exact .inr (.inl (.inl (by simpa [hs'] using he)))

theorem addToDeferredMessageQueue (h : Tracked c [e] s) (hfresh : e ∉ s.held e.message.blockID)
    (haccepted : e ∈ s.accepted) (hexaminable : Examinable c e.message) :
    Tracked c [] (Network.addToDeferredMessageQueue e s) := by
  have hnodup : (s.held e.message.blockID ++ [e]).Nodup :=
    List.nodup_append_comm.mp (List.nodup_cons.mpr ⟨hfresh, h.nodup _⟩)
  have hheld : ∀ x ∈ s.held e.message.blockID ++ [e],
      x.message.blockID = e.message.blockID ∧ x ∈ s.accepted ∧ Examinable c x.message := by
    intro x hx
    obtain hx | hx := List.mem_append.mp hx
    · exact h.held _ x hx
    · cases List.mem_singleton.mp hx
      exact ⟨rfl, haccepted, hexaminable⟩
  obtain heq | ⟨front, later, hlist, hlength, heq⟩ := addToDeferredMessageQueue_cases e s
  · refine requeue h hnodup hheld (List.Sublist.refl _) (by simp) (List.Subset.refl _) heq ?_
    intro x hx hnot
    exact absurd (List.mem_append_left _ hx) hnot
  · have hqueue : (front :: later).Sublist (s.held e.message.blockID ++ [e]) := by
      rw [← hlist, MessageState.held, List.append_assoc]
      exact List.sublist_append_right _ _
    have hlater : ∀ x ∈ front :: later, x.message.blockID = e.message.blockID ∧ x ∈ s.accepted :=
      fun x hx => ⟨(hheld x (hqueue.subset hx)).1, (hheld x (hqueue.subset hx)).2.1⟩
    refine requeue h hnodup hheld (hlist ▸ List.sublist_cons_self _ _) ?_
      (List.subset_append_left _ _) heq ?_
    · cases hbefore : s.deferredMessageQueue e.message.blockID with
      | nil =>
        rw [hbefore] at hlist
        cases hlist
        cases hlength
      | cons x rest =>
        rw [hbefore] at hlist
        cases hlist
        exact List.mem_append_right _ List.mem_cons_self
    · intro x hx hnot
      have hfront : x = front := by
        have hmem : x ∈ front :: later := hlist ▸ List.mem_append_left _ hx
        exact (List.mem_cons.mp hmem).resolve_right hnot
      subst hfront
      refine ⟨later, ?_, hlength, hnodup.sublist hqueue, ?_⟩
      · rw [heq]
        exact List.mem_append_right _ List.mem_cons_self
      · intro y hy
        rw [heq]
        exact ⟨(hlater y (List.mem_cons_of_mem _ hy)).2, by
          rw [(hlater y (List.mem_cons_of_mem _ hy)).1, (hlater x List.mem_cons_self).1]⟩

theorem handled (h : Tracked c [e] s) {lastCommitted : ℕ} (hs' : Handled lastCommitted e s s')
    (hread : lastCommitted ≤ s.lastCommittedBlockID) (hfresh : e ∉ s.held e.message.blockID)
    (haccepted : e ∈ s.accepted) (hexaminable : Examinable c e.message) : Tracked c [] s' := by
  cases hs' with
  | deferred => exact h.addToDeferredMessageQueue hfresh haccepted hexaminable
  | dropped hold =>
    refine close (of_grows h rfl (fun _ => rfl) ?_ ?_ ?_ le_rfl) fun _ => ?_
    · exact List.Subset.refl _
    · exact List.subset_append_left _ _
    · exact List.Subset.refl _
    · exact .inr (.inr (.inl ⟨List.mem_append_right _ List.mem_cons_self,
        hold.trans (Nat.succ_le_succ hread)⟩))
  | posted =>
    refine close (of_grows h rfl (fun _ => rfl) ?_ ?_ ?_ le_rfl) fun _ => ?_
    · exact List.subset_append_left _ _
    · exact List.Subset.refl _
    · exact List.Subset.refl _
    · exact .inl (List.mem_append_right _ List.mem_cons_self)

/-- Pulling moves messages from the lists to the batch. -/
theorem held_pull (h : Tracked c inHand s) (hbatch : s.deferredMessages = [])
    (lastCommitted b : ℕ) :
    (pullMessagesForCurrentBlockID lastCommitted s).held b = s.held b := by
  have hlist : ∀ i, (s.deferredMessageQueue i).filter (fun e => e.message.blockID = b) =
      if i = b then s.deferredMessageQueue b else [] := by
    intro i
    have hblock : ∀ e ∈ s.deferredMessageQueue i, e.message.blockID = i := by
      intro e he
      exact (h.held i e (List.mem_append_right _ he)).1
    split_ifs with hi
    · subst hi
      exact List.filter_eq_self.mpr fun e he => decide_eq_true (hblock e he)
    · refine List.filter_eq_nil_iff.mpr fun e he => ?_
      rw [hblock e he]
      simpa using hi
  simp only [MessageState.held, pullMessagesForCurrentBlockID, List.filter_flatMap, hlist, hbatch,
    flatMap_range_ite, List.filter_nil, Nat.lt_succ_iff]
  split_ifs <;> simp

theorem pull (h : Tracked c [] s) (hbatch : s.deferredMessages = []) (lastCommitted : ℕ) :
    Tracked c [] (pullMessagesForCurrentBlockID lastCommitted s) :=
  of_grows h rfl (h.held_pull hbatch lastCommitted) (List.Subset.refl _) (List.Subset.refl _)
    (List.Subset.refl _) le_rfl

/-- The first message of the batch is taken in hand. -/
theorem take (h : Tracked c [] s) {rest : List Accepted} (hbatch : s.deferredMessages = e :: rest) :
    Tracked c [e] {s with deferredMessages := rest} ∧
      e ∉ MessageState.held {s with deferredMessages := rest} e.message.blockID ∧
      e ∈ s.accepted ∧ Examinable c e.message := by
  have hsame : s.held e.message.blockID =
      e :: MessageState.held {s with deferredMessages := rest} e.message.blockID := by
    simp [MessageState.held, hbatch]
  have hsub : ∀ b, (MessageState.held {s with deferredMessages := rest} b).Sublist (s.held b) := by
    intro b
    refine List.Sublist.append_right (List.Sublist.filter _ ?_) _
    rw [hbatch]
    exact List.sublist_cons_self e rest
  have he := h.held e.message.blockID e (hsame ▸ List.mem_cons_self)
  refine ⟨⟨h.numbered, ?_, ?_, ?_⟩, ?_, he.2⟩
  · exact fun b x hx => h.held b x ((hsub b).subset hx)
  · exact fun b => (h.nodup b).sublist (hsub b)
  · intro x hx hne horacle
    refine (h.accounted x hx List.not_mem_nil horacle).mono (List.Subset.refl _)
      (List.Subset.refl _) (List.Subset.refl _) (List.Subset.refl _) le_rfl fun hdeferred => ?_
    refine .inr (.inl (hdeferred.imp_right fun hmem => ?_))
    rw [hbatch] at hmem
    exact (List.mem_cons.mp hmem).resolve_left fun hx => hne (by simp [hx])
  · have hnodup := h.nodup e.message.blockID
    rw [hsame] at hnodup
    exact (List.nodup_cons.mp hnodup).1

theorem accept (h : Tracked c [] s) (m : NetworkMessage) :
    Tracked c [⟨s.accepted.length, m⟩] (Network.accept c m s) ∧
      ∀ b, ⟨s.accepted.length, m⟩ ∉ (Network.accept c m s).held b := by
  refine ⟨⟨?_, ?_, h.nodup, ?_⟩, ?_⟩
  · intro x hx
    rw [show (Network.accept c m s).accepted.length = s.accepted.length + 1 from
      List.length_append]
    obtain hx | hx := List.mem_append.mp hx
    · exact Nat.lt_succ_of_lt (h.numbered x hx)
    · rw [List.mem_singleton.mp hx]
      exact Nat.lt_succ_self _
  · intro b x hx
    obtain ⟨hblock, haccepted, hexaminable⟩ := h.held b x hx
    exact ⟨hblock, List.mem_append_left _ haccepted, hexaminable⟩
  · intro x hx hne horacle
    have hold : x ∈ s.accepted := (List.mem_append.mp hx).resolve_right hne
    exact (h.accounted x hold List.not_mem_nil horacle).mono (List.Subset.refl _)
      (List.Subset.refl _) (List.Subset.refl _) (List.subset_append_left _ _) le_rfl
      fun hdeferred => .inr (.inl hdeferred)
  · intro b hmem
    exact lt_irrefl _ (h.numbered _ (h.held b _ hmem).2.1)

end Tracked

/-! ### Runs -/

/-- The votes that arrive are for proposals of nodes. -/
def MessageEvent.WellIndexed (nodeCount : ℕ) : MessageEvent → Prop
  | .receive m _ _ => m.WellIndexed nodeCount
  | _ => True

instance (nodeCount : ℕ) (event : MessageEvent) : Decidable (event.WellIndexed nodeCount) :=
  match event with
  | .receive _ _ _ => inferInstanceAs (Decidable (NetworkMessage.WellIndexed _ _))
  | .commit _ | .pull _ | .examine _ _ => inferInstanceAs (Decidable True)

/-- The list of the message that is looked at is not full. -/
def MessageEvent.HasRoom : MessageEvent → MessageState → Prop
  | .receive m _ _, s =>
    (s.deferredMessageQueue m.blockID).length < MAX_DEFERRED_QUEUE_SIZE_FOR_BLOCK
  | .examine _ _, s => ∀ e ∈ s.deferredMessages.head?,
      (s.deferredMessageQueue e.message.blockID).length < MAX_DEFERRED_QUEUE_SIZE_FOR_BLOCK
  | .commit _, _ | .pull _, _ => True

instance (event : MessageEvent) (s : MessageState) : Decidable (event.HasRoom s) :=
  match event with
  | .receive _ _ _ => inferInstanceAs (Decidable (_ < _))
  | .examine _ _ => inferInstanceAs (Decidable (∀ e ∈ s.deferredMessages.head?, _))
  | .commit _ | .pull _ => inferInstanceAs (Decidable True)

section Runs
variable {c : MessageConfig} {s s' : MessageState} {lastCommitted : ℕ}

theorem readMessage_run (m : NetworkMessage) (lastCommitted : ℕ) (child : Child)
    (s : MessageState) :
    (readMessage c lastCommitted child m).run s =
      if m.blockID ≤ c.catchupBlocks ∨
        s.knownMsgHashes.contains (toHex (c.blake3 m.hashInput)) = true then .ok () s
      else if m.msgType.isOracle then
        .ok () {accept c m s with oracleQueue := s.oracleQueue ++ [⟨s.accepted.length, m⟩]}
      else (postDeferOrDrop c lastCommitted child ⟨s.accepted.length, m⟩).run (accept c m s) := by
  unfold readMessage
  by_cases hcatchup : m.blockID ≤ c.catchupBlocks
  · simp [hcatchup]
  · cases hknown : s.knownMsgHashes.contains (toHex (c.blake3 m.hashInput)) with
    | true => simp [hcatchup, hknown]
    | false =>
      rw [if_neg hcatchup, if_neg (by simp [hcatchup]), run_get_bind, hknown]
      cases horacle : m.msgType.isOracle <;> rfl

theorem readMessage_cases {m : NetworkMessage} (hindex : m.WellIndexed c.nodeCount)
    (lastCommitted : ℕ) (child : Child) (s : MessageState) :
    finalState (readMessage c lastCommitted child m) s = s ∨
      (m.msgType.isOracle = true ∧ finalState (readMessage c lastCommitted child m) s =
        {accept c m s with oracleQueue := s.oracleQueue ++ [⟨s.accepted.length, m⟩]}) ∨
      (Examinable c m ∧ Handled lastCommitted ⟨s.accepted.length, m⟩ (accept c m s)
        (finalState (readMessage c lastCommitted child m) s)) := by
  have hrun := readMessage_run (c := c) m lastCommitted child s
  split_ifs at hrun with hignored horacle
  · exact .inl (finalState_of_ok hrun)
  · exact .inr (.inl ⟨horacle, finalState_of_ok hrun⟩)
  · have hexaminable : Examinable c m :=
      ⟨Nat.zero_lt_of_lt (not_le.mp (not_or.mp hignored).1), by simpa using horacle, hindex⟩
    obtain ⟨s', hs', hhandled⟩ := postDeferOrDrop_handled (e := ⟨s.accepted.length, m⟩)
      hexaminable lastCommitted child (accept c m s)
    rw [finalState_of_ok (hrun.trans hs')]
    exact .inr (.inr ⟨hexaminable, hhandled⟩)

theorem Tracked.receive (h : Tracked c [] s) {m : NetworkMessage}
    (hindex : m.WellIndexed c.nodeCount) (hread : lastCommitted ≤ s.lastCommittedBlockID)
    (child : Child) :
    Tracked c [] (finalState (readMessage c lastCommitted child m) s) := by
  obtain ⟨haccept, hfresh⟩ := h.accept m
  obtain hsame | ⟨horacle, hsame⟩ | ⟨hexaminable, hhandled⟩ :=
    readMessage_cases hindex lastCommitted child s
  · rw [hsame]
    exact h
  · rw [hsame]
    refine .close (.of_grows haccept rfl (fun _ => rfl) ?_ ?_ ?_ le_rfl) fun hno => ?_
    · exact List.Subset.refl _
    · exact List.Subset.refl _
    · exact List.Subset.refl _
    · rw [horacle] at hno
      cases hno
  · exact haccept.handled hhandled hread (hfresh _) (List.mem_append_right _ List.mem_cons_self)
      hexaminable

theorem Tracked.examineMessage_cases (h : Tracked c [] s) {child : Child}
    (hs' : examineMessage c lastCommitted child s = some s') :
    ∃ e rest, s.deferredMessages = e :: rest ∧
      Handled lastCommitted e {s with deferredMessages := rest} s' := by
  unfold examineMessage at hs'
  cases hbatch : s.deferredMessages with
  | nil =>
    rw [hbatch] at hs'
    cases hs'
  | cons e rest =>
    obtain ⟨-, -, -, hexaminable⟩ := h.take hbatch
    obtain ⟨t, hrun, hhandled⟩ := postDeferOrDrop_handled hexaminable lastCommitted child
      {s with deferredMessages := rest}
    rw [hbatch] at hs'
    simp only [hrun, Option.some.injEq] at hs'
    exact ⟨e, rest, rfl, hs' ▸ hhandled⟩

theorem Tracked.examine (h : Tracked c [] s) (hread : lastCommitted ≤ s.lastCommittedBlockID)
    {child : Child} (hs' : examineMessage c lastCommitted child s = some s') : Tracked c [] s' := by
  obtain ⟨e, rest, hbatch, hhandled⟩ := h.examineMessage_cases hs'
  obtain ⟨htake, hfresh, haccepted, hexaminable⟩ := h.take hbatch
  exact htake.handled hhandled hread hfresh haccepted hexaminable

/-- Where there is room nothing is pushed out. -/
theorem Handled.pushedOut_eq {e : Accepted} (h : Handled lastCommitted e s s')
    (hroom : (s.deferredMessageQueue e.message.blockID).length < MAX_DEFERRED_QUEUE_SIZE_FOR_BLOCK)
    : s'.pushedOut = s.pushedOut := by
  cases h with
  | deferred =>
    obtain heq | ⟨front, later, hlist, hlength, -⟩ := addToDeferredMessageQueue_cases e s
    · rw [heq]
    · have hsame := congrArg List.length hlist
      simp only [List.length_append, List.length_cons, List.length_nil] at hsame
      omega
  | dropped | posted => rfl

/-- What every event of a run keeps. -/
theorem Tracked.step (h : Tracked c [] s) {event : MessageEvent}
    (hindex : event.WellIndexed c.nodeCount) (hs' : (messageMachine c).step event s = some s') :
    Tracked c [] s' := by
  cases event with
  | receive m lastCommitted child =>
    obtain ⟨hread, hs'⟩ := Option.ite_none_right_eq_some.mp hs'
    exact Option.some.inj hs' ▸ h.receive hindex hread child
  | commit blockID =>
    obtain ⟨hlater, hs'⟩ := Option.ite_none_right_eq_some.mp hs'
    rw [← Option.some.inj hs']
    exact .of_grows h rfl (fun _ => rfl) (List.Subset.refl _) (List.Subset.refl _)
      (List.Subset.refl _) hlater.le
  | pull lastCommitted =>
    obtain ⟨⟨-, hbatch⟩, hs'⟩ := Option.ite_none_right_eq_some.mp hs'
    exact Option.some.inj hs' ▸ h.pull hbatch lastCommitted
  | examine lastCommitted child =>
    obtain ⟨hread, hs'⟩ := Option.ite_none_right_eq_some.mp hs'
    exact h.examine hread hs'

theorem Tracked.pushedOut_step (h : Tracked c [] s) {event : MessageEvent}
    (hindex : event.WellIndexed c.nodeCount) (hroom : event.HasRoom s)
    (hs' : (messageMachine c).step event s = some s') : s'.pushedOut = s.pushedOut := by
  cases event with
  | receive m lastCommitted child =>
    obtain ⟨-, hs'⟩ := Option.ite_none_right_eq_some.mp hs'
    rw [← Option.some.inj hs']
    obtain hsame | ⟨-, hsame⟩ | ⟨-, hhandled⟩ := readMessage_cases hindex lastCommitted child s
    · rw [hsame]
    · rw [hsame]
      rfl
    · exact hhandled.pushedOut_eq hroom
  | commit blockID =>
    obtain ⟨-, hs'⟩ := Option.ite_none_right_eq_some.mp hs'
    rw [← Option.some.inj hs']
  | pull lastCommitted =>
    obtain ⟨-, hs'⟩ := Option.ite_none_right_eq_some.mp hs'
    rw [← Option.some.inj hs']
    rfl
  | examine lastCommitted child =>
    obtain ⟨-, hs'⟩ := Option.ite_none_right_eq_some.mp hs'
    obtain ⟨e, rest, hbatch, hhandled⟩ := h.examineMessage_cases hs'
    exact hhandled.pushedOut_eq (hroom e (by rw [hbatch]; rfl))

/-- Without a bound on the lists: a list holds `MAX_DEFERRED_QUEUE_SIZE_FOR_BLOCK` messages, so
that as many later ones push a message out. -/
theorem accounted_of_wellIndexed {events : List MessageEvent}
    (hrun : (messageMachine c).run events = some s)
    (hindex : ∀ event ∈ events, event.WellIndexed c.nodeCount) :
    ∀ e ∈ s.accepted, e.message.msgType.isOracle = false →
      s.Accounted MAX_DEFERRED_QUEUE_SIZE_FOR_BLOCK e := by
  have htracked : Tracked c [] s :=
    run_invariant_of_keeps hrun
      (keeps_of_forall (fun event hevent _ => hindex event hevent) _) .initial
      fun _ _ _ h hevent hs' => h.step hevent hs'
  exact fun e he horacle => htracked.accounted e he List.not_mem_nil horacle

/-- The condition on an event and the state it happens in. -/
def MessageEvent.Harmless (nodeCount : ℕ) (event : MessageEvent) (s : MessageState) : Prop :=
  event.WellIndexed nodeCount ∧ event.HasRoom s

instance (nodeCount : ℕ) (event : MessageEvent) (s : MessageState) :
    Decidable (event.Harmless nodeCount s) :=
  inferInstanceAs (Decidable (_ ∧ _))

/-- In a run whose votes are all for proposals of nodes and that overfills no list, every
consensus message that was taken is posted, deferred, too old, or pushed out by more than
`MAX_DEFERRED_QUEUE_SIZE_FOR_BLOCK` others. -/
theorem accounted_of_harmless (c : MessageConfig) (events : List MessageEvent) (s : MessageState)
    (hrun : (messageMachine c).run events = some s)
    (hkeeps : (messageMachine c).Keeps (fun event => event.Harmless c.nodeCount)
      (messageMachine c).initial events) :
    ∀ e ∈ s.accepted, e.message.msgType.isOracle = false →
      s.Accounted (MAX_DEFERRED_QUEUE_SIZE_FOR_BLOCK + 1) e := by
  have hinv : Tracked c [] s ∧ s.pushedOut = [] := by
    refine run_invariant_of_keeps (P := fun s => Tracked c [] s ∧ s.pushedOut = []) hrun
      hkeeps ⟨.initial, rfl⟩ ?_
    rintro event t t' ⟨htracked, hpushed⟩ ⟨hindex, hroom⟩ hstep
    exact ⟨htracked.step hindex hstep, (htracked.pushedOut_step hindex hroom hstep).trans hpushed⟩
  intro e he horacle
  obtain hposted | hdeferred | hold | ⟨later, hlater, -⟩ :=
    hinv.1.accounted e he List.not_mem_nil horacle
  · exact .inl hposted
  · exact .inr (.inl hdeferred)
  · exact .inr (.inr (.inl hold))
  · rw [hinv.2] at hlater
    cases hlater

end Runs

/-! ### A batch that is cut short -/

def deferredVote (msgID : ℕ) (proposer : SchainIndex) : NetworkMessage :=
  {NetworkMessage.first with
    blockID := 2
    blockProposerIndex := proposer
    msgID}

/-- Four nodes; the digest of a text is the text. -/
def fourNodes : MessageConfig := ⟨4, 0, id⟩

/-- Two votes on block 2 arrive before block 1 is committed, and the first is looked at after it
is. Then the second is sent once more. -/
def deferredRun (proposer : SchainIndex) : List MessageEvent :=
  [.receive (deferredVote 1 proposer) 0 ⟨0, false⟩, .receive (deferredVote 2 3) 0 ⟨0, false⟩,
    .commit 1, .pull 1, .examine 1 ⟨0, false⟩, .receive (deferredVote 2 3) 1 ⟨0, false⟩]

theorem accounted_deferredRun : ∃ s, (messageMachine fourNodes).run (deferredRun 1) = some s ∧
    s.accepted = [⟨0, deferredVote 1 1⟩, ⟨1, deferredVote 2 3⟩] ∧
    ∀ e ∈ s.accepted, s.Accounted (MAX_DEFERRED_QUEUE_SIZE_FOR_BLOCK + 1) e := by
  obtain ⟨s, hrun, haccepted⟩ : ∃ s, (messageMachine fourNodes).run (deferredRun 1) = some s ∧
      s.accepted = [⟨0, deferredVote 1 1⟩, ⟨1, deferredVote 2 3⟩] :=
    exists_run (by decide +kernel)
  refine ⟨s, hrun, haccepted, fun e he => ?_⟩
  refine accounted_of_harmless fourNodes (deferredRun 1) s hrun (by decide +kernel) e he ?_
  rw [haccepted] at he
  obtain rfl | rfl : e = ⟨0, deferredVote 1 1⟩ ∨ e = ⟨1, deferredVote 2 3⟩ := by simpa using he
  · rfl
  · rfl

theorem accounted_of_wellIndexed_deferredRun :
    ∃ s, (messageMachine fourNodes).run (deferredRun 1) = some s ∧
      s.Accounted MAX_DEFERRED_QUEUE_SIZE_FOR_BLOCK ⟨1, deferredVote 2 3⟩ := by
  obtain ⟨s, hrun, hmem⟩ : ∃ s, (messageMachine fourNodes).run (deferredRun 1) = some s ∧
      ⟨1, deferredVote 2 3⟩ ∈ s.accepted :=
    exists_run (by decide +kernel)
  exact ⟨s, hrun, accounted_of_wellIndexed hrun (by decide +kernel) _ hmem rfl⟩

/-- There is no node 9. The exception its vote causes ends the batch, and the vote behind it is
neither posted nor deferred. -/
theorem neighbour_lost : ∃ s, (messageMachine fourNodes).run (deferredRun 9) = some s ∧
    ⟨1, deferredVote 2 3⟩ ∈ s.accepted ∧ (deferredVote 2 3).msgType.isOracle = false ∧
    ¬ s.Accounted (MAX_DEFERRED_QUEUE_SIZE_FOR_BLOCK + 1) ⟨1, deferredVote 2 3⟩ := by
  obtain ⟨s, hrun, haccepted, hposted, hdeferred, hdropped, hpushed⟩ :
      ∃ s, (messageMachine fourNodes).run (deferredRun 9) = some s ∧
        ⟨1, deferredVote 2 3⟩ ∈ s.accepted ∧ s.messageQueue = [] ∧
        ¬ (⟨1, deferredVote 2 3⟩ ∈ s.deferredMessageQueue 2 ∨
          ⟨1, deferredVote 2 3⟩ ∈ s.deferredMessages) ∧
        s.dropped = [] ∧ s.pushedOut = [] :=
    exists_run (by decide +kernel)
  refine ⟨s, hrun, haccepted, rfl, ?_⟩
  rintro (hmem | hmem | ⟨hmem, -⟩ | ⟨later, hmem, -⟩)
  · rw [hposted] at hmem
    cases hmem
  · exact hdeferred hmem
  · rw [hdropped] at hmem
    cases hmem
  · rw [hpushed] at hmem
    cases hmem

end SkaleConsensus.Network
