import SkaleConsensus.BinConsensus.InstanceCache

/-! The round window, between the threads of a node.

A thread of the network asks the instance that a message is for about its round and,
when the message is of the round after it, about its decision, and posts the message
on that ground. The message thread takes the queue as a whole and hands message after
message to its instance. No lock is held over any of this: what a thread has read may
be old when it posts, and older when the message is processed, and an instance may be
asked between any two assignments of a handler.

But a round never goes back and a decision stays (`Progress`). What was once within
the window of its instance stays there (`InWindow.progress`), whoever is where. -/
namespace SkaleConsensus.BinConsensus
open Library Relation

/-! ### The threads -/

/-- Where a thread of the network is. A message that is deferred leaves its thread; any
thread may come back with it. -/
inductive NetworkThread where
  | idle
  /-- In `shouldPost`, before `getRound`. -/
  | atRound (me : MessageEnvelope)
  /-- The round was the one before the message's; before `decided`. -/
  | atDecided (me : MessageEnvelope)
  /-- `shouldPost` returned true; before `postMessage`. -/
  | atPost (me : MessageEnvelope)

inductive MessageThread where
  | idle
  /-- Before `processMessage` of the first of these. -/
  | handing (envelopes : List MessageEnvelope)
  /-- Within `processMessage`, which leaves its instance at `target`. -/
  | within (me : MessageEnvelope) (target : Exec) (rest : List MessageEnvelope)

def MessageThread.envelopes : MessageThread → List MessageEnvelope
  | .idle => []
  | .handing envelopes => envelopes
  | .within _ _ rest => rest

/-- A node while it runs; `children` has the one instance of every key. -/
structure Process where
  lastCommittedBlockID : ℕ
  children : ProtocolKey → Exec
  messageQueue : List Task
  /-- What the message thread has taken out of the queue. -/
  newQueue : List Task
  networkThread : ℕ → NetworkThread
  messageThread : MessageThread

/-- What `routeAndProcessMessage` hands to instances; the other tasks throw or are ignored. -/
def routed (c : Schain) (lastCommittedBlockID : ℕ) (task : Task) : List MessageEnvelope :=
  if task.blockID = 0 ∨ lastCommittedBlockID + 1 < task.blockID then []
  else if task.blockID + MAX_ACTIVE_CONSENSUSES < lastCommittedBlockID then []
  else match task with
    | .proposal blockID proposals => (List.range' 1 c.nodeCount).map fun i =>
        proposalEnvelope c.schainIndex ⟨blockID, i⟩ (proposals i)
    | .message me =>
      if 0 < me.message.blockProposerIndex ∧ me.message.blockProposerIndex ≤ c.nodeCount then [me]
      else []

/-- After the round was read. `getChild` throws on an index that no node has. -/
def afterRound (c : Schain) (currentRound : ℕ) (me : MessageEnvelope) : NetworkThread :=
  if ¬ (0 < me.message.blockProposerIndex ∧ me.message.blockProposerIndex ≤ c.nodeCount) then .idle
  else if me.message.r > currentRound + 1 then .idle
  else if me.message.r = currentRound + 1 then .atDecided me
  else .atPost me

def afterDecided (decided : Bool) (me : MessageEnvelope) : NetworkThread :=
  if decided = true then .atPost me else .idle

namespace Process

/-- The instance that a message is for. -/
def child (s : Process) (me : MessageEnvelope) : Exec := s.children me.message.key

def setThread (s : Process) (t : ℕ) (thread : NetworkThread) : Process :=
  {s with networkThread := Function.update s.networkThread t thread}

def setChild (s : Process) (me : MessageEnvelope) (x : Exec) : Process :=
  {s with children := Function.update s.children me.message.key x}

def start (lastCommittedBlockID : ℕ) : Process where
  lastCommittedBlockID := lastCommittedBlockID
  children K := .start K
  messageQueue := []
  newQueue := []
  networkThread _ := .idle
  messageThread := .idle

/-- What one thread does between two looks at what it shares with the others. Block ids and
instances are read by `postDeferOrDrop` and `routeAndProcessMessage` as they are then. -/
inductive Step (c : Schain) : Process → Process → Prop where
  /-- A block is committed, by consensus or by catchup. -/
  | commit (s : Process) (blockID : ℕ) : s.lastCommittedBlockID < blockID →
      Step c s {s with lastCommittedBlockID := blockID}
  | startConsensus (s : Process) (proposals : SchainIndex → Bool) :
      Step c s {s with messageQueue :=
        s.messageQueue ++ [.proposal (s.lastCommittedBlockID + 1) proposals]}
  /-- `postDeferOrDrop` comes to ask the consensus. -/
  | receive (s : Process) (t : ℕ) (me : MessageEnvelope) : s.networkThread t = .idle →
      me.origin = .network → me.message.blockID ≤ s.lastCommittedBlockID + 1 →
      s.lastCommittedBlockID + 1 < me.message.blockID + MAX_ACTIVE_CONSENSUSES →
      Step c s (s.setThread t (.atRound me))
  | readRound (s : Process) (t : ℕ) (me : MessageEnvelope) : s.networkThread t = .atRound me →
      Step c s (s.setThread t (afterRound c (s.child me).inst.currentRound me))
  | readDecided (s : Process) (t : ℕ) (me : MessageEnvelope) : s.networkThread t = .atDecided me →
      Step c s (s.setThread t (afterDecided (s.child me).inst.isDecided me))
  /-- `postMessage`, which throws on the block id zero. -/
  | post (s : Process) (t : ℕ) (me : MessageEnvelope) : s.networkThread t = .atPost me →
      Step c s {s.setThread t .idle with messageQueue :=
        s.messageQueue ++ if me.message.blockID = 0 then [] else [.message me]}
  | take (s : Process) : s.messageThread = .idle → s.newQueue = [] →
      Step c s {s with messageQueue := [], newQueue := s.messageQueue}
  | route (s : Process) (task : Task) (rest : List Task) : s.messageThread = .idle →
      s.newQueue = task :: rest →
      Step c s {s with
        newQueue := rest, messageThread := .handing (routed c s.lastCommittedBlockID task)}
  /-- An exception ends the loop of `startConsensusProposal`. -/
  | enter (s : Process) (me : MessageEnvelope) (rest : List MessageEnvelope) :
      s.messageThread = .handing (me :: rest) →
      Step c s {s with
        messageThread := .within me (finalState (processMessage c me) (s.child me))
          (if returns (processMessage c me) (s.child me) = true then rest else [])}
  | move (s : Process) (me : MessageEnvelope) (target : Exec) (rest : List MessageEnvelope)
      (x : Exec) : s.messageThread = .within me target rest →
      Move c me (Meant me) (s.child me) x → Moves c me (Meant me) x target →
      Step c s (s.setChild me x)
  | leave (s : Process) (me : MessageEnvelope) (rest : List MessageEnvelope) :
      s.messageThread = .within me (s.child me) rest →
      Step c s {s with messageThread := .handing rest}
  | done (s : Process) : s.messageThread = .handing [] → Step c s {s with messageThread := .idle}

/-- The states of a node that starts at some block. -/
def Reachable (c : Schain) (s : Process) : Prop := ∃ last, ReflTransGen (Step c) (start last) s

theorem Reachable.tail {c : Schain} {s s' : Process} (h : Reachable c s) (hstep : Step c s s') :
    Reachable c s' := by
  obtain ⟨last, hrun⟩ := h
  exact ⟨last, hrun.tail hstep⟩

theorem Reachable.trans {c : Schain} {s s' : Process} (h : Reachable c s)
    (hsteps : ReflTransGen (Step c) s s') : Reachable c s' := by
  obtain ⟨last, hrun⟩ := h
  exact ⟨last, hrun.trans hsteps⟩

end Process

/-! ### The window -/

/-- `shouldPost` would let the round pass. -/
structure InWindow (x : Exec) (r : ℕ) : Prop where
  round : r ≤ x.inst.currentRound + 1
  decided : r = x.inst.currentRound + 1 → x.inst.isDecided = true

theorem InWindow.progress {x y : Exec} {r : ℕ} (h : InWindow x r) (hprogress : Progress x y) :
    InWindow y r := by
  have hround := hprogress.currentRound
  refine ⟨h.round.trans (Nat.succ_le_succ hround), fun hr => ?_⟩
  -- the round after the new one was the round after the old one
  have hsame : r = x.inst.currentRound + 1 := le_antisymm h.round (hr ▸ Nat.succ_le_succ hround)
  exact (hprogress.decided (h.decided hsame)).1

/-- What has passed `shouldPost` is in the window of its instance, wherever it is by now. -/
structure Windowed (s : Process) : Prop where
  atDecided : ∀ t me, s.networkThread t = .atDecided me →
    me.message.r ≤ (s.child me).inst.currentRound + 1
  atPost : ∀ t me, s.networkThread t = .atPost me → InWindow (s.child me) me.message.r
  queued : ∀ me, Task.message me ∈ s.messageQueue → InWindow (s.child me) me.message.r
  taken : ∀ me, Task.message me ∈ s.newQueue → InWindow (s.child me) me.message.r
  handing : ∀ me ∈ s.messageThread.envelopes, me.origin = .network →
    InWindow (s.child me) me.message.r

namespace Windowed
variable {c : Schain} {s s' : Process} {me : MessageEnvelope}

theorem start (last : ℕ) : Windowed (.start last) where
  atDecided _ _ h := nomatch h
  atPost _ _ h := nomatch h
  queued _ h := nomatch h
  taken _ h := nomatch h
  handing _ h := nomatch h

/-- A thread goes on; what it is at then is all there is to see to. -/
theorem setThread (h : Windowed s) (t : ℕ) {thread : NetworkThread}
    (hdecided : ∀ me, thread = .atDecided me →
      me.message.r ≤ (s.child me).inst.currentRound + 1)
    (hpost : ∀ me, thread = .atPost me → InWindow (s.child me) me.message.r) :
    Windowed (s.setThread t thread) := by
  exact {h with
    atDecided := (Function.forall_update_iff s.networkThread fun _ thread => ∀ me,
      thread = .atDecided me → me.message.r ≤ (s.child me).inst.currentRound + 1).mpr
      ⟨hdecided, fun t' _ => h.atDecided t'⟩
    atPost := (Function.forall_update_iff s.networkThread fun _ thread => ∀ me,
      thread = .atPost me → InWindow (s.child me) me.message.r).mpr
      ⟨hpost, fun t' _ => h.atPost t'⟩}

theorem readRound (h : Windowed s) (t : ℕ) (me : MessageEnvelope) :
    Windowed (s.setThread t (afterRound c (s.child me).inst.currentRound me)) := by
  apply h.setThread t
  · intro me' hthread
    unfold afterRound at hthread
    split_ifs at hthread with hindex hfuture hnext
    cases hthread
    exact Nat.le_of_not_lt hfuture
  · intro me' hthread
    unfold afterRound at hthread
    split_ifs at hthread with hindex hfuture hnext
    cases hthread
    exact ⟨Nat.le_of_not_lt hfuture, fun hr => absurd hr hnext⟩

theorem readDecided (h : Windowed s) {t : ℕ} (hthread : s.networkThread t = .atDecided me) :
    Windowed (s.setThread t (afterDecided (s.child me).inst.isDecided me)) := by
  apply h.setThread t
  · intro me' hthread'
    unfold afterDecided at hthread'
    split_ifs at hthread'
  · intro me' hthread'
    unfold afterDecided at hthread'
    split_ifs at hthread' with hdecided
    cases hthread'
    exact ⟨h.atDecided t me hthread, fun _ => hdecided⟩

/-- An instance moves on under everything that is for it. -/
theorem setChild (h : Windowed s) {x : Exec} (hprogress : Progress (s.child me) x) :
    Windowed (s.setChild me x) := by
  have hchild : ∀ me', Progress (s.child me') ((s.setChild me x).child me') := by
    intro me'
    show Progress _ (Function.update s.children me.message.key x me'.message.key)
    by_cases hkey : me'.message.key = me.message.key
    · rw [hkey, Function.update_self]
      unfold Process.child at hprogress ⊢
      rwa [hkey]
    · rw [Function.update_of_ne hkey]
      exact .refl _
  exact {
    atDecided := fun t me' hthread =>
      (h.atDecided t me' hthread).trans (Nat.succ_le_succ (hchild me').currentRound)
    atPost := fun t me' hthread => (h.atPost t me' hthread).progress (hchild me')
    queued := fun me' hmem => (h.queued me' hmem).progress (hchild me')
    taken := fun me' hmem => (h.taken me' hmem).progress (hchild me')
    handing := fun me' hmem hnetwork => (h.handing me' hmem hnetwork).progress (hchild me') }

theorem post (h : Windowed s) {t : ℕ} (hthread : s.networkThread t = .atPost me) :
    Windowed {s.setThread t .idle with messageQueue :=
      s.messageQueue ++ if me.message.blockID = 0 then [] else [.message me]} := by
  have hidle : Windowed (s.setThread t .idle) := h.setThread t nofun nofun
  refine {hidle with queued := fun me' hmem => ?_}
  rcases List.mem_append.mp hmem with hmem | hmem
  · exact h.queued me' hmem
  · split_ifs at hmem
    · cases hmem
    · cases List.mem_singleton.mp hmem
      exact h.atPost t me hthread

theorem eq_message_of_mem_routed {last : ℕ} {task : Task} (hmem : me ∈ routed c last task)
    (hnetwork : me.origin = .network) : task = .message me := by
  unfold routed at hmem
  split_ifs at hmem
  · cases hmem
  · cases hmem
  · cases task with
    | proposal blockID proposals =>
      obtain ⟨i, -, rfl⟩ := List.mem_map.mp hmem
      cases hnetwork
    | message me' =>
      dsimp only at hmem
      split_ifs at hmem
      · rw [List.mem_singleton.mp hmem]
      · cases hmem

theorem step (h : Windowed s) (hstep : s.Step c s') : Windowed s' := by
  cases hstep with
  | commit blockID hlt => exact {h with}
  | startConsensus proposals =>
    refine {h with queued := fun me hmem => ?_}
    rcases List.mem_append.mp hmem with hmem | hmem
    · exact h.queued me hmem
    · cases List.mem_singleton.mp hmem
  | receive t me hidle hnetwork hfuture hold => exact h.setThread t nofun nofun
  | readRound t me hthread => exact h.readRound t me
  | readDecided t me hthread => exact h.readDecided hthread
  | post t me hthread => exact h.post hthread
  | take hidle hempty => exact {h with queued := nofun, taken := h.queued}
  | route task rest hidle htaken =>
    refine {h with
      taken := fun me hmem => h.taken me (htaken ▸ List.mem_cons_of_mem task hmem)
      handing := fun me hmem hnetwork => h.taken me ?_}
    rw [htaken, eq_message_of_mem_routed hmem hnetwork]
    exact List.mem_cons_self
  | enter me rest hthread =>
    refine {h with handing := fun me' hmem => h.handing me' ?_}
    change me' ∈ (if _ then rest else []) at hmem
    rw [hthread]
    split_ifs at hmem
    · exact List.mem_cons_of_mem me hmem
    · cases hmem
  | move me target rest x hthread hmove hmoves => exact h.setChild hmove.progress
  | leave me rest hthread =>
    refine {h with handing := fun me' hmem => h.handing me' ?_}
    rw [hthread]
    exact hmem
  | done hthread => exact {h with handing := nofun}

theorem of_reachable (h : s.Reachable c) : Windowed s := by
  obtain ⟨last, hrun⟩ := h
  induction hrun with
  | refl => exact .start last
  | tail _ hstep ih => exact ih.step hstep

end Windowed

/-! ### The check of the round -/

/-- What `processNetworkMessageImpl` throws on a round beyond the window. -/
def roundCheck : String := "State check failed::" ++ "round <= getCurrentRound() + 1"

section RoundCheck
variable {c : Schain} {next : Value → Handler Unit}

theorem avoids_checkState {e : String} {what : String} (check : Bool)
    (h : "State check failed::" ++ what ≠ e) : Avoids e (checkState check what : Handler Unit) := by
  cases check with
  | true => exact avoids_pure ()
  | false => exact avoids_throw h

theorem networkBroadcastValue_avoids (m : Message) : Avoids roundCheck (networkBroadcastValue m) :=
  avoids_get_bind fun _ =>
    (avoids_pure ()).ite ((avoids_modify _).bind fun _ => avoids_modify _)

theorem bvbVote_avoids (r : ℕ) (v : Value) (i : SchainIndex) : Avoids roundCheck (bvbVote r v i) :=
  avoids_get_bind fun _ => (avoids_modify _).bind fun _ => avoids_pure _

theorem auxVoteCore_avoids (r : ℕ) (v : Value) (i : SchainIndex) (share : Option SigShare) :
    Avoids roundCheck (auxVoteCore r v i share) :=
  avoids_get_bind fun _ => (avoids_checkState _ (by decide)).bind fun _ =>
    (avoids_modify _).bind fun _ => avoids_pure _

theorem lottery_avoids (hnext : ∀ v, Avoids roundCheck (next v)) (r : ℕ) :
    Avoids roundCheck (proceedWithDecisionLotteryIfAUXTwoThird c next r) := by
  have hrandom : Avoids roundCheck (computeRandom c r) := by
    refine avoids_get_bind fun s => ?_
    cases hrandom : roundRandom c s.inst r with
    | error e =>
      apply avoids_throw
      rcases roundRandom_error hrandom with rfl | rfl <;> decide
    | ok random => exact (avoids_modify _).bind fun _ => avoids_pure random
  have hdecide : ∀ v, Avoids roundCheck (decideValue v) := fun v =>
    avoids_get_bind fun _ => (avoids_checkState _ (by decide)).bind fun _ =>
      (avoids_modify _).bind fun _ => avoids_modify _
  refine avoids_get_bind fun s => (avoids_pure ()).ite
    ((avoids_checkState _ (by decide)).bind fun _ => .ite ?_ (avoids_pure ()))
  refine hrandom.bind fun random => avoids_get_bind fun _ =>
    (avoids_checkState _ (by decide)).bind fun _ => ?_
  exact (hnext _).ite ((hdecide _).ite (hnext _))

theorem addToBinValues_avoids (hnext : ∀ v, Avoids roundCheck (next v)) (m : Message) :
    Avoids roundCheck (addToBinValuesIfTwoThirds c next m) := by
  have haux : Avoids roundCheck (auxSelfVoteAndBroadcastValue c m.r m.value) :=
    avoids_get_bind fun _ => (auxVoteCore_avoids _ _ _ _).bind fun _ => avoids_modify _
  refine avoids_get_bind fun _ => (avoids_pure ()).ite (.ite ?_ (avoids_pure ()))
  refine (avoids_modify _).bind fun _ => avoids_get_bind fun _ =>
    ((avoids_pure ()).ite haux).bind fun _ => ?_
  exact (lottery_avoids hnext m.r).ite (avoids_pure ())

theorem proceedWithNextRound_avoids (v : Value) : Avoids roundCheck (proceedWithNextRound c v) := by
  have hfuel : ∀ fuel v, Avoids roundCheck (proceedWithNextRoundFuel c fuel v) := by
    intro fuel
    induction fuel with
    | zero => exact fun v => avoids_throw (by decide)
    | succ fuel ih =>
      intro v
      refine avoids_get_bind fun s => (avoids_checkState _ (by decide)).bind fun _ =>
        (avoids_checkState _ (by decide)).bind fun _ => (avoids_modify _).bind fun _ =>
        (avoids_modify _).bind fun _ => (networkBroadcastValue_avoids _).bind fun _ =>
        (bvbVote_avoids _ _ _).bind fun fresh => ?_
      exact (addToBinValues_avoids ih _).ite (avoids_pure ())
  exact hfuel 100 v

theorem InWindow.run_ne_roundCheck {x : Exec} {me : MessageEnvelope}
    (h : InWindow x me.message.r) (t : Exec) :
    (processNetworkMessageImpl c me).run x ≠ .error roundCheck t := by
  have hnext : ∀ v, Avoids roundCheck (proceedWithNextRound c v) := proceedWithNextRound_avoids
  cases htype : me.message.msgType with
  | bvBroadcast =>
    rw [processBVB_run x htype, if_pos h.round]
    split_ifs
    · nofun
    · have hestimate : Avoids roundCheck (ifAlreadyDecidedSendDelayedEstimateForNextRound c
          (proceedWithNextRound c) me.message.r) :=
        avoids_get_bind fun _ => (hnext _).ite (avoids_pure ())
      exact (hestimate.bind fun _ => addToBinValues_avoids hnext me.message) _ t
  | auxBroadcast =>
    rw [processAUX_run x htype, if_pos h.round]
    cases hshare : auxVoteShare c me.message with
    | error e =>
      rcases auxVoteShare_error hshare with rfl | rfl
      · exact fun hrun => absurd (EStateM.Result.error.inj hrun).1 (by decide)
      · exact fun hrun => absurd (EStateM.Result.error.inj hrun).1 (by decide)
    | ok share =>
      dsimp only
      split_ifs
      · exact lottery_avoids hnext me.message.r _ t
      · nofun

end RoundCheck

/-! ### One thread at a time

Left alone, the threads bring a message that `shouldPost` lets pass to its instance, and leave
the instance as `processMessage` does. So what they do one after the other, each at a stroke,
is among what they do here. -/

namespace Process
variable {c : Schain} {s : Process}

theorem Reachable.orderly (h : s.Reachable c) (K : ProtocolKey) : Orderly (s.children K) := by
  obtain ⟨last, hrun⟩ := h
  induction hrun with
  | refl => exact .start K
  | @tail y _ _ hstep ih =>
    cases hstep with
    | move me target rest x hthread hmove hmoves =>
      show Orderly (Function.update y.children me.message.key x K)
      rcases eq_or_ne K me.message.key with rfl | hne
      · rw [Function.update_self]
        exact ih.move hmove
      · rwa [Function.update_of_ne hne]
    | _ => exact ih

/-- The message thread gets through its handler. -/
theorem within_run {me : MessageEnvelope} {x target : Exec} {rest : List MessageEnvelope}
    (hmoves : Moves c me (Meant me) x target) (hthread : s.messageThread = .within me target rest) :
    ReflTransGen (Step c) (s.setChild me x)
      {s.setChild me target with messageThread := .handing rest} := by
  have hchild : ∀ y, (s.setChild me y).child me = y := fun y => Function.update_self ..
  have htwice : ∀ y z, (s.setChild me y).setChild me z = s.setChild me z := by
    intro y z
    unfold setChild
    rw [Function.update_idem]
  induction hmoves using ReflTransGen.head_induction_on with
  | refl =>
    apply ReflTransGen.single
    exact .leave (s.setChild me target) me rest (by rw [hchild]; exact hthread)
  | @head y z hmove hmoves ih =>
    refine .head ?_ ih
    rw [← htwice y z]
    exact .move _ me target rest z hthread (by rwa [hchild]) hmoves

/-- A message at the instance it is for. -/
def deliverTo (c : Schain) (me : MessageEnvelope) (children : ProtocolKey → Exec) :
    ProtocolKey → Exec :=
  Function.update children me.message.key (handle c (children me.message.key) me)

theorem Reachable.handed (h : s.Reachable c) {me : MessageEnvelope} {rest : List MessageEnvelope}
    (hthread : s.messageThread = .handing (me :: rest)) :
    Reachable c {s with
      children := deliverTo c me s.children
      messageThread :=
        .handing (if returns (processMessage c me) (s.child me) = true then rest else [])} := by
  have hsound : Sound c me (Meant me) (s.child me) ((processMessage c me).run (s.child me)) :=
    processMessage_sound (fun _ => .inl) (.inr rfl) (h.orderly me.message.key).binary
  have henter := h.tail (.enter s me rest hthread)
  refine henter.trans ?_
  have hself : ∀ thread, ({s with messageThread := thread} : Process) =
      ({s with messageThread := thread} : Process).setChild me (s.child me) := by
    intro thread
    unfold setChild child
    rw [Function.update_eq_self]
  rw [hself]
  exact within_run hsound.moves rfl

/-- A node whose threads wait. -/
def quiet (last : ℕ) (children : ProtocolKey → Exec) : Process :=
  {start last with children := children}

/-- `postDeferOrDrop` posts the message, and it will be handed to its instance. -/
def Admitted (c : Schain) (last : ℕ) (children : ProtocolKey → Exec) (me : MessageEnvelope) :
    Prop :=
  me.origin = .network ∧ 0 < me.message.blockID ∧ me.message.blockID ≤ last + 1 ∧
    last + 1 < me.message.blockID + MAX_ACTIVE_CONSENSUSES ∧
    0 < me.message.blockProposerIndex ∧ me.message.blockProposerIndex ≤ c.nodeCount ∧
    shouldPost (children me.message.key).inst me.message.r = true

instance instDecidableAdmitted (c : Schain) (last : ℕ) (children : ProtocolKey → Exec)
    (me : MessageEnvelope) : Decidable (Admitted c last children me) :=
  inferInstanceAs (Decidable (_ ∧ _ ∧ _ ∧ _ ∧ _ ∧ _ ∧ _))

section Quiet
variable {last : ℕ} {children : ProtocolKey → Exec} {me : MessageEnvelope}

theorem networkThread_setThread (t : ℕ) (a : NetworkThread) :
    (s.setThread t a).networkThread t = a :=
  Function.update_self ..

theorem setThread_setThread (t : ℕ) (a b : NetworkThread) :
    (s.setThread t a).setThread t b = s.setThread t b := by
  unfold setThread
  rw [Function.update_idem]

/-- `shouldPost`, read for read. -/
theorem Admitted.asked (hadmitted : Admitted c last children me)
    (h : (quiet last children).Reachable c) :
    ((quiet last children).setThread 0 (.atPost me)).Reachable c := by
  obtain ⟨hnetwork, -, hfuture, hold, hpos, hle, hpost⟩ := hadmitted
  have hasked := h.tail (.receive _ 0 me rfl hnetwork hfuture hold)
  have hread := hasked.tail (.readRound _ 0 me (networkThread_setThread ..))
  rw [setThread_setThread] at hread
  change Reachable c (setThread _ 0 (afterRound c (children me.message.key).inst.currentRound me))
    at hread
  unfold shouldPost at hpost
  unfold afterRound at hread
  rw [if_neg (not_not.mpr ⟨hpos, hle⟩)] at hread
  split_ifs at hpost hread with hfar hnext
  · have hdecided := hread.tail (.readDecided _ 0 me (networkThread_setThread ..))
    rw [setThread_setThread] at hdecided
    change Reachable c (setThread _ 0 (afterDecided (children me.message.key).inst.isDecided me))
      at hdecided
    rwa [afterDecided, if_pos hpost] at hdecided
  · exact hread

theorem Admitted.handing (hadmitted : Admitted c last children me)
    (h : (quiet last children).Reachable c) :
    Reachable c {quiet last children with messageThread := .handing [me]} := by
  have hasked := hadmitted.asked h
  obtain ⟨-, hblock, hfuture, hold, hpos, hle, -⟩ := hadmitted
  have hposted := hasked.tail (.post _ 0 me (networkThread_setThread ..))
  have htaken := (hposted.tail (.take _ rfl rfl))
  rw [if_neg hblock.ne', setThread_setThread] at htaken
  have hrouted := htaken.tail (.route _ (.message me) [] rfl rfl)
  have hone : routed c last (.message me) = [me] := by
    have hblockID : (Task.message me).blockID = me.message.blockID := rfl
    unfold routed
    rw [hblockID, if_neg (by omega), if_neg (by omega)]
    exact if_pos ⟨hpos, hle⟩
  change Reachable c {(quiet last children).setThread 0 .idle with
    messageQueue := [], newQueue := [], messageThread := .handing (routed c last (.message me))}
    at hrouted
  rw [hone] at hrouted
  have hidle : (quiet last children).setThread 0 .idle = quiet last children :=
    congrArg (fun threads => {quiet last children with networkThread := threads})
      (Function.update_eq_self 0 _)
  rwa [hidle] at hrouted

theorem Admitted.delivered (hadmitted : Admitted c last children me)
    (h : (quiet last children).Reachable c) :
    (quiet last (deliverTo c me children)).Reachable c := by
  have hhanded := (hadmitted.handing h).handed rfl
  rw [ite_self] at hhanded
  exact hhanded.tail (.done _ rfl)

/-- Messages that are posted and handed over one by one. -/
def deliverAll (c : Schain) (last : ℕ) :
    List MessageEnvelope → (ProtocolKey → Exec) → Option (ProtocolKey → Exec)
  | [], children => some children
  | me :: rest, children =>
    if Admitted c last children me then deliverAll c last rest (deliverTo c me children)
    else none

theorem Reachable.deliverAll {envelopes : List MessageEnvelope} {children' : ProtocolKey → Exec}
    (h : (quiet last children).Reachable c)
    (hall : Process.deliverAll c last envelopes children = some children') :
    (quiet last children').Reachable c := by
  induction envelopes generalizing children with
  | nil =>
    cases hall
    exact h
  | cons me rest ih =>
    dsimp only [Process.deliverAll] at hall
    split_ifs at hall with hadmitted
    exact ih (hadmitted.delivered h) hall

end Quiet

end Process

/-! ### What reaches an instance -/

/-- Whatever the threads do in whatever order: a message of the network that is about to be
processed is at most one round ahead of its instance, of the round ahead only if the instance
has decided, and does not fail the check of its round. -/
theorem round_window {c : Schain} {s : Process} (h : s.Reachable c) {me : MessageEnvelope}
    {rest : List MessageEnvelope} (hnext : s.messageThread = .handing (me :: rest))
    (hnetwork : me.origin = .network) :
    me.message.r ≤ (s.child me).inst.currentRound + 1 ∧
    (me.message.r = (s.child me).inst.currentRound + 1 → (s.child me).inst.isDecided = true) ∧
    ∀ t, (processNetworkMessageImpl c me).run (s.child me) ≠ .error roundCheck t := by
  have hmem : me ∈ s.messageThread.envelopes := by
    rw [hnext]
    exact List.mem_cons_self
  have hwindow := (Windowed.of_reachable h).handing me hmem hnetwork
  exact ⟨hwindow.round, hwindow.decided, hwindow.run_ne_roundCheck⟩

/-- A vote for true of `firstKey`. -/
def voteFrom (msgType : MsgType) (r : ℕ) (i : SchainIndex) : MessageEnvelope :=
  ⟨.network, ⟨msgType, firstKey.blockID, firstKey.blockProposerIndex, r, 1, none⟩, i⟩

/-- Node 1 decides in its first round, and then gets a message of the second. -/
theorem round_window_decided :
    ∃ s : Process, s.Reachable (plainNode 4 1) ∧
      s.messageThread = .handing [voteFrom .bvBroadcast 1 2] ∧
      (s.child (voteFrom .bvBroadcast 1 2)).inst.currentRound + 1 = 1 ∧
      (s.child (voteFrom .bvBroadcast 1 2)).inst.isDecided = true := by
  have hrun : ((Process.deliverAll (plainNode 4 1) 0
      [voteFrom .bvBroadcast 0 2, voteFrom .bvBroadcast 0 3, voteFrom .bvBroadcast 0 4,
        voteFrom .auxBroadcast 0 2, voteFrom .auxBroadcast 0 3] fun K => .start K).map
      fun children => decide
        (Process.Admitted (plainNode 4 1) 0 children (voteFrom .bvBroadcast 1 2) ∧
          (children firstKey).inst.currentRound = 0)) = some true := by
    decide +kernel
  obtain ⟨children, hall, hlater⟩ := Option.map_eq_some_iff.mp hrun
  obtain ⟨hadmitted, hround⟩ := of_decide_eq_true hlater
  have hstart : (Process.quiet 0 fun K => .start K).Reachable (plainNode 4 1) := ⟨0, .refl⟩
  have hreach := hadmitted.handing (hstart.deliverAll hall)
  exact ⟨_, hreach, rfl, congrArg (· + 1) hround,
    (round_window hreach rfl rfl).2.1 (congrArg (· + 1) hround.symm)⟩

end SkaleConsensus.BinConsensus
