import SkaleConsensus.BinConsensus.Handlers
import SkaleConsensus.BinConsensus.Invariants
import SkaleConsensus.Library.Execution
import SkaleConsensus.Library.Quorum
import Mathlib.Order.Interval.Finset.Nat

/-! The nodes of a chain, running all their binary consensuses.

Every correct node has one instance per key, the queue of its message thread and
the list of what that thread has processed. The scheduler proposes, posts and
processes in any order. A message posted to a node comes from the network: its
source index is a node's, and if that node is correct it did send the message.
Nothing else is asked of a message, so Byzantine nodes send what they like, to
whom they like, and messages may be lost, repeated, reordered and reflected. -/
namespace SkaleConsensus.BinConsensus
open Library Relation

/-- The chain's nodes, fewer than a third of them Byzantine. -/
structure Deployment where
  nodeCount : ℕ
  byzantine : Finset SchainIndex
  byzantine_subset : byzantine ⊆ Finset.Icc 1 nodeCount
  byzantine_lt_third : 3 * byzantine.card < nodeCount
  node : SchainIndex → Schain
  node_nodeCount : ∀ i, (node i).nodeCount = nodeCount
  node_schainIndex : ∀ i, (node i).schainIndex = i

namespace Deployment
variable (D : Deployment)

def nodes : Finset SchainIndex := Finset.Icc 1 D.nodeCount

def correct : Finset SchainIndex := D.nodes \ D.byzantine

/-- The keys `getChild` has an instance for. -/
def isChildKey (K : ProtocolKey) : Prop := 0 < K.blockID ∧ K.blockProposerIndex ∈ D.nodes

instance (K : ProtocolKey) : Decidable (D.isChildKey K) :=
  inferInstanceAs (Decidable (0 < K.blockID ∧ K.blockProposerIndex ∈ D.nodes))

end Deployment

structure System where
  children : SchainIndex → ProtocolKey → Exec
  messageQueue : SchainIndex → List MessageEnvelope
  processed : SchainIndex → List MessageEnvelope

/-- `BlockConsensusAgent::shouldPost`. -/
def shouldPost (s : BinConsensusInstance) (r : ℕ) : Bool :=
  if r > s.currentRound + 1 then false
  else if r = s.currentRound + 1 then s.isDecided
  else true

/-- What `BlockConsensusAgent::propose` hands to an instance. -/
def proposalEnvelope (i : SchainIndex) (K : ProtocolKey) (b : Bool) : MessageEnvelope :=
  ⟨.parent, ⟨.bvBroadcast, K.blockID, K.blockProposerIndex, 0, Value.ofBool b, none⟩, i⟩

namespace System

def start : System where
  children := fun _ K => .start K
  messageQueue := fun _ => []
  processed := fun _ => []

/-- The instances of one key. -/
def view (s : System) (K : ProtocolKey) (i : SchainIndex) : Exec := s.children i K

/-- Node `i` hands `me` to the instance it is for. -/
def deliver (s : System) (D : Deployment) (i : SchainIndex) (me : MessageEnvelope) : System :=
  let K := me.message.key
  let child := finalState (processMessage (D.node i) me) (s.children i K)
  {s with children := Function.update s.children i (Function.update (s.children i) K child)}

end System

/-- The sender of a message is a node, and a correct one did send it. -/
def Authentic (D : Deployment) (e : SchainIndex → Exec) (me : MessageEnvelope) : Prop :=
  me.srcSchainIndex ∈ D.nodes ∧
    (me.srcSchainIndex ∈ D.correct → me.message ∈ (e me.srcSchainIndex).sent)

instance (D : Deployment) (e : SchainIndex → Exec) (me : MessageEnvelope) :
    Decidable (Authentic D e me) :=
  inferInstanceAs (Decidable (me.srcSchainIndex ∈ D.nodes ∧
    (me.srcSchainIndex ∈ D.correct → me.message ∈ (e me.srcSchainIndex).sent)))

inductive Event where
  /-- The parent of node `i` proposes; a second proposal repeats the first. -/
  | propose (i : SchainIndex) (K : ProtocolKey) (b : Bool)
  /-- `Network::postDeferOrDrop` posts a message to node `i`. -/
  | post (i : SchainIndex) (me : MessageEnvelope)
  /-- The message thread of node `i` takes the next message of its queue. -/
  | process (i : SchainIndex)
deriving DecidableEq

def step (D : Deployment) : Event → System → Option System
  | .propose i K b, s =>
    let old := (s.children i K).inst.proposals 0
    if i ∈ D.correct ∧ D.isChildKey K ∧ (old = none ∨ old = some (Value.ofBool b)) then
      some (s.deliver D i (proposalEnvelope i K b))
    else none
  | .post i me, s =>
    let K := me.message.key
    if i ∈ D.correct ∧ D.isChildKey K ∧ me.origin = .network ∧ Authentic D (s.view K) me ∧
        shouldPost (s.children i K).inst me.message.r = true then
      some {s with messageQueue := Function.update s.messageQueue i (s.messageQueue i ++ [me])}
    else none
  | .process i, s =>
    match s.messageQueue i with
    | [] => none
    | me :: rest =>
      if i ∈ D.correct then
        some {s.deliver D i me with
          messageQueue := Function.update s.messageQueue i rest
          processed := Function.update s.processed i (s.processed i ++ [me])}
      else none

def machine (D : Deployment) : Machine System Event := ⟨.start, step D⟩

/-! ### One key at a time

The instances of one key only hear of each other. `Consistent` ties what an
instance counted to what the others sent, and what was sent to the estimates of
correct nodes; it survives every step of every instance of the key. -/

/-- A correct node sent a BVB message for a truth value, or an AUX message. -/
def Sent (e : Exec) (msgType : MsgType) (b : Bool) (r : ℕ) : Prop :=
  ∃ m ∈ e.sent, m.msgType = msgType ∧ m.r = r ∧ m.value.toBool = b

/-- A node entered the round with an estimate. -/
def Estimated (e : Exec) (b : Bool) (r : ℕ) : Prop :=
  e.inst.proposals r = some (Value.ofBool b)

structure Consistent (D : Deployment) (K : ProtocolKey) (e : SchainIndex → Exec) : Prop where
  exec : ∀ i, ExecInv (D.node i) K (e i)
  /-- A counted vote was sent, or is the node's own estimate. -/
  bvbVotes : ∀ i b r, ∀ k ∈ (e i).inst.bvbVotes b r, k ∈ D.nodes ∧
    (k ∈ D.correct → (k = i ∧ Estimated (e k) b r) ∨ Sent (e k) .bvBroadcast b r)
  auxVotes : ∀ i b r, ∀ k ∈ ((e i).inst.auxVotes b r).keys, k ∈ D.nodes ∧
    (k ∈ D.correct → Sent (e k) .auxBroadcast b r)
  /-- What a correct node sends, some correct node had as its estimate. -/
  grounded : ∀ i ∈ D.correct, ∀ b r, Sent (e i) .bvBroadcast b r →
    ∃ j ∈ D.correct, Estimated (e j) b r

namespace Deployment
variable {D : Deployment}

theorem mem_correct_of_notMem {k : SchainIndex} (hk : k ∈ D.nodes) (h : k ∉ D.byzantine) :
    k ∈ D.correct :=
  Finset.mem_sdiff.mpr ⟨hk, h⟩

theorem card_nodes : D.nodes.card = D.nodeCount := by
  simp [nodes]

end Deployment

namespace Consistent
variable {D : Deployment} {K : ProtocolKey} {e : SchainIndex → Exec}

theorem start (D : Deployment) (K : ProtocolKey) : Consistent D K fun _ => .start K where
  exec i := .start (D.node i) K
  bvbVotes i b r k hk := by
    cases b <;> exact absurd hk (Finset.notMem_empty k)
  auxVotes i b r k hk := by
    cases b <;> exact absurd hk (Finset.notMem_empty k)
  grounded i _ b r h := by
    obtain ⟨m, hm, -⟩ := h
    exact absurd hm List.not_mem_nil

theorem estimated_of_third (h : Consistent D K e) {i : SchainIndex} {b : Bool} {r : ℕ}
    (hthird : D.nodeCount < 3 * ((e i).inst.bvbVotes b r).card) :
    ∃ j ∈ D.correct, Estimated (e j) b r := by
  obtain ⟨k, hk, hbyz⟩ := Quorum.exists_correct_of_third D.byzantine_lt_third hthird
  obtain ⟨hnode, hreason⟩ := h.bvbVotes i b r k hk
  have hcorrect := Deployment.mem_correct_of_notMem hnode hbyz
  rcases hreason hcorrect with ⟨-, hestimate⟩ | hsent
  · exact ⟨k, hcorrect, hestimate⟩
  · exact h.grounded k hcorrect b r hsent

section Step
variable {i : SchainIndex} {me : MessageEnvelope} {x : Exec} {r : ℕ} {b : Bool}

theorem sent_kept (heff : Effect (D.node i) me (e i) x) {j : SchainIndex} {t : MsgType}
    (hsent : Sent (e j) t b r) : Sent (Function.update e i x j) t b r := by
  by_cases hj : j = i
  · subst hj
    obtain ⟨m, hm, hfields⟩ := hsent
    rw [Function.update_self]
    exact ⟨m, heff.grows.sent hm, hfields⟩
  · rwa [Function.update_of_ne hj]

theorem estimated_kept (h : Consistent D K e) (heff : Effect (D.node i) me (e i) x)
    {j : SchainIndex} (hest : Estimated (e j) b r) :
    Estimated (Function.update e i x j) b r := by
  by_cases hj : j = i
  · subst hj
    rw [Function.update_self]
    exact (h.exec j).proposals_kept heff hest
  · rwa [Function.update_of_ne hj]

/-- An estimate is binary, so its truth value names it. -/
theorem estimated_of_toBool (h : Consistent D K e) {v : Value}
    (hv : (e i).inst.proposals r = some v) (hb : v.toBool = b) : Estimated (e i) b r := by
  obtain ⟨b', rfl⟩ := (h.exec i).binary r v hv
  rw [Value.toBool_ofBool] at hb
  subst hb
  exact hv

theorem bvbVotes_step (h : Consistent D K e) (hi : i ∈ D.correct)
    (hme : me.origin = .network → Authentic D e me) (heff : Effect (D.node i) me (e i) x)
    (b : Bool) (r : ℕ) (k : SchainIndex) (hk : k ∈ x.inst.bvbVotes b r) : k ∈ D.nodes ∧
      (k ∈ D.correct → (k = i ∧ Estimated (e k) b r) ∨ Sent (e k) .bvBroadcast b r) := by
  rcases heff.bvbVotes_cases hk with hold | ⟨hnet, htype, rfl, hr, hb⟩ | ⟨hself, v, hv, hb⟩
  · exact h.bvbVotes i b r k hold
  · obtain ⟨hnode, hsent⟩ := hme hnet
    exact ⟨hnode, fun hcorrect => .inr ⟨me.message, hsent hcorrect, htype, hr, hb⟩⟩
  · rw [D.node_schainIndex] at hself
    subst hself
    exact ⟨(Finset.mem_sdiff.mp hi).1, fun _ => .inl ⟨rfl, h.estimated_of_toBool hv hb⟩⟩

theorem auxVotes_step (h : Consistent D K e) (hi : i ∈ D.correct)
    (hme : me.origin = .network → Authentic D e me) (heff : Effect (D.node i) me (e i) x)
    (b : Bool) (r : ℕ) (k : SchainIndex) (hk : k ∈ (x.inst.auxVotes b r).keys) : k ∈ D.nodes ∧
      (k ∈ D.correct → Sent (e k) .auxBroadcast b r ∨ (k = i ∧ Sent x .auxBroadcast b r)) := by
  rcases heff.auxVotes_cases hk with hold | ⟨hnet, htype, rfl, hr, hb⟩ | ⟨hself, hsent⟩
  · obtain ⟨hnode, hsent⟩ := h.auxVotes i b r k hold
    exact ⟨hnode, fun hcorrect => .inl (hsent hcorrect)⟩
  · obtain ⟨hnode, hsent⟩ := hme hnet
    exact ⟨hnode, fun hcorrect => .inl ⟨me.message, hsent hcorrect, htype, hr, hb⟩⟩
  · rw [D.node_schainIndex] at hself
    subst hself
    exact ⟨(Finset.mem_sdiff.mp hi).1, fun _ => .inr ⟨rfl, hsent⟩⟩

theorem grounded_step (h : Consistent D K e) (hi : i ∈ D.correct)
    (heff : Effect (D.node i) me (e i) x) (b : Bool) (r : ℕ)
    (hsent : Sent x .bvBroadcast b r) : ∃ j ∈ D.correct, Estimated (e j) b r := by
  obtain ⟨m, hm, htype, hr, hb⟩ := hsent
  have hold : m ∈ (e i).sent → ∃ j ∈ D.correct, Estimated (e j) b r :=
    fun hmem => h.grounded i hi b r ⟨m, hmem, htype, hr, hb⟩
  rcases heff.sent_cases with hsame | ⟨new, hnew, -, hreason⟩
  · exact hold (hsame ▸ hm)
  · rw [hnew] at hm
    rcases List.mem_append.mp hm with hmem | hmem
    · exact hold hmem
    · obtain rfl := List.mem_singleton.mp hmem
      rcases hreason with ⟨-, -, hproposed | hthird⟩ | ⟨haux, -⟩
      · exact ⟨i, hi, h.estimated_of_toBool (hr ▸ hproposed) hb⟩
      · refine h.estimated_of_third (i := i) ?_
        simp only [isThird, BinConsensusInstance.getBVBVoteCount, D.node_nodeCount, hr, hb,
          decide_eq_true_eq] at hthird
        omega
      · exact absurd (haux.symm.trans htype) (by decide)

/-- One step of one instance keeps the nodes consistent. -/
theorem step (h : Consistent D K e) (hi : i ∈ D.correct)
    (hme : me.origin = .network → Authentic D e me) (heff : Effect (D.node i) me (e i) x) :
    Consistent D K (Function.update e i x) where
  exec j := by
    by_cases hj : j = i
    · subst hj
      rw [Function.update_self]
      exact (h.exec j).step heff
    · rw [Function.update_of_ne hj]
      exact h.exec j
  bvbVotes j b r k hk := by
    have hbefore : k ∈ D.nodes ∧ (k ∈ D.correct →
        (k = j ∧ Estimated (e k) b r) ∨ Sent (e k) .bvBroadcast b r) := by
      by_cases hj : j = i
      · subst hj
        rw [Function.update_self] at hk
        exact h.bvbVotes_step hi hme heff b r k hk
      · rw [Function.update_of_ne hj] at hk
        exact h.bvbVotes j b r k hk
    refine ⟨hbefore.1, fun hcorrect => ?_⟩
    rcases hbefore.2 hcorrect with ⟨hk, hest⟩ | hsent
    · exact .inl ⟨hk, h.estimated_kept heff hest⟩
    · exact .inr (sent_kept heff hsent)
  auxVotes j b r k hk := by
    by_cases hj : j = i
    · subst hj
      rw [Function.update_self] at hk
      obtain ⟨hnode, hsent⟩ := h.auxVotes_step hi hme heff b r k hk
      refine ⟨hnode, fun hcorrect => ?_⟩
      rcases hsent hcorrect with hsent | ⟨rfl, hsent⟩
      · exact sent_kept heff hsent
      · rwa [Function.update_self]
    · rw [Function.update_of_ne hj] at hk
      obtain ⟨hnode, hsent⟩ := h.auxVotes j b r k hk
      exact ⟨hnode, fun hcorrect => sent_kept heff (hsent hcorrect)⟩
  grounded j hj b r hsent := by
    have hbefore : ∃ k ∈ D.correct, Estimated (e k) b r := by
      by_cases hji : j = i
      · subst hji
        rw [Function.update_self] at hsent
        exact h.grounded_step hi heff b r hsent
      · rw [Function.update_of_ne hji] at hsent
        exact h.grounded j hj b r hsent
    obtain ⟨k, hk, hest⟩ := hbefore
    exact ⟨k, hk, h.estimated_kept heff hest⟩

theorem authentic_kept {me' : MessageEnvelope} (hg : Grows (e i) x) (h : Authentic D e me') :
    Authentic D (Function.update e i x) me' := by
  refine ⟨h.1, fun hcorrect => ?_⟩
  by_cases hj : me'.srcSchainIndex = i
  · rw [hj, Function.update_self]
    exact hg.sent (hj ▸ h.2 hcorrect)
  · rw [Function.update_of_ne hj]
    exact h.2 hcorrect

/-- So does a whole handler. -/
theorem steps (h : Consistent D K e) (hi : i ∈ D.correct)
    (hme : me.origin = .network → Authentic D e me) (heff : Effects (D.node i) me (e i) x) :
    Consistent D K (Function.update e i x) := by
  induction heff with
  | refl => rwa [Function.update_eq_self]
  | @tail y z hbefore hlast ih =>
    have hme' : me.origin = .network → Authentic D (Function.update e i y) me :=
      fun hnet => authentic_kept (Effects.grows hbefore) (hme hnet)
    have hlast' : Effect (D.node i) me (Function.update e i y i) z := by
      rwa [Function.update_self]
    have hz := ih.step hi hme' hlast'
    rwa [Function.update_idem] at hz

end Step

end Consistent

/-! ### Whole runs -/

theorem System.view_deliver (s : System) (D : Deployment) (i : SchainIndex) (me : MessageEnvelope)
    (K : ProtocolKey) :
    (s.deliver D i me).view K =
      if K = me.message.key then
        Function.update (s.view K) i (finalState (processMessage (D.node i) me) (s.view K i))
      else s.view K := by
  funext j
  unfold System.view System.deliver
  by_cases hj : j = i
  · subst hj
    by_cases hK : K = me.message.key
    · subst hK
      simp
    · simp [hK]
  · by_cases hK : K = me.message.key
    · simp [hj, hK]
    · simp [hj, hK]

structure SystemInv (D : Deployment) (s : System) : Prop where
  consistent : ∀ K, Consistent D K (s.view K)
  queued : ∀ i, ∀ me ∈ s.messageQueue i, me.origin = .network ∧
    Authentic D (s.view me.message.key) me ∧
    me.message.r ≤ (s.view me.message.key i).inst.currentRound + 1

/-- A message node `i` may be handed: from the network or from its own parent. -/
structure Handed (D : Deployment) (s : System) (i : SchainIndex) (me : MessageEnvelope) : Prop where
  correct : i ∈ D.correct
  network : me.origin = .network → Authentic D (s.view me.message.key) me
  parent : me.origin = .parent → OwnProposal (D.node i) me (s.view me.message.key i)

namespace SystemInv
variable {D : Deployment} {s s' : System} {me : MessageEnvelope} {i : SchainIndex}

theorem start (D : Deployment) : SystemInv D .start where
  consistent K := .start D K
  queued _ _ hme := absurd hme List.not_mem_nil

theorem deliver_effects (h : SystemInv D s) (hme : Handed D s i me) :
    Effects (D.node i) me (s.view me.message.key i)
      (finalState (processMessage (D.node i) me) (s.view me.message.key i)) := by
  have hexec := (h.consistent me.message.key).exec i
  exact processMessage_effects hexec.key.symm hexec.decidedInTime hme.parent

theorem deliver_grows (h : SystemInv D s) (hme : Handed D s i me) (K : ProtocolKey)
    (j : SchainIndex) :
    Grows (s.view K j) ((s.deliver D i me).view K j) := by
  rw [System.view_deliver]
  split_ifs with hK
  · subst hK
    by_cases hj : j = i
    · subst hj
      rw [Function.update_self]
      exact (h.deliver_effects hme).grows
    · rw [Function.update_of_ne hj]
      exact .refl _
  · exact .refl _

theorem deliver_consistent (h : SystemInv D s) (hme : Handed D s i me) (K : ProtocolKey) :
    Consistent D K ((s.deliver D i me).view K) := by
  rw [System.view_deliver]
  split_ifs with hK
  · subst hK
    exact (h.consistent _).steps hme.correct hme.network (h.deliver_effects hme)
  · exact h.consistent K

/-- What a queued message is trusted for stays true while it waits. -/
theorem queued_deliver (h : SystemInv D s) (hme : Handed D s i me) {j : SchainIndex}
    {me' : MessageEnvelope} (hqueued : me' ∈ s.messageQueue j) :
    me'.origin = .network ∧
      Authentic D ((s.deliver D i me).view me'.message.key) me' ∧
      me'.message.r ≤ ((s.deliver D i me).view me'.message.key j).inst.currentRound + 1 := by
  obtain ⟨hnet, hauth, hround⟩ := h.queued j me' hqueued
  have hg := h.deliver_grows hme me'.message.key
  refine ⟨hnet, ⟨hauth.1, fun hcorrect => (hg _).sent (hauth.2 hcorrect)⟩, ?_⟩
  have hmono := (hg j).currentRound
  omega

end SystemInv

theorem le_of_shouldPost {s : BinConsensusInstance} {r : ℕ} (h : shouldPost s r = true) :
    r ≤ s.currentRound + 1 := by
  unfold shouldPost at h
  split_ifs at h with hfar
  · omega
  · omega

variable {D : Deployment} {s : System}

/-- The three kinds of step: a message is handed to a node, from its parent or its
queue, or a message is queued. -/
theorem step_cases {s' : System} {event : Event} (h : step D event s = some s') :
    (∃ i K b, event = .propose i K b ∧ i ∈ D.correct ∧
      OwnProposal (D.node i) (proposalEnvelope i K b) (s.view K i) ∧
      s' = s.deliver D i (proposalEnvelope i K b)) ∨
    (∃ i me, event = .post i me ∧ me.origin = .network ∧
      Authentic D (s.view me.message.key) me ∧
      shouldPost (s.view me.message.key i).inst me.message.r = true ∧
      s' = {s with
        messageQueue := Function.update s.messageQueue i (s.messageQueue i ++ [me])}) ∨
    ∃ i me rest, event = .process i ∧ i ∈ D.correct ∧ s.messageQueue i = me :: rest ∧
      s' = {s.deliver D i me with
        messageQueue := Function.update s.messageQueue i rest
        processed := Function.update s.processed i (s.processed i ++ [me])} := by
  cases event with
  | propose i K b =>
    simp only [step] at h
    split_ifs at h with hguard
    obtain ⟨hi, -, hkept⟩ := hguard
    refine .inl ⟨i, K, b, rfl, hi, ⟨?_, ⟨b, rfl⟩, hkept⟩, (Option.some.inj h).symm⟩
    exact (D.node_schainIndex i).symm
  | post i me =>
    simp only [step] at h
    split_ifs at h with hguard
    obtain ⟨hi, -, hnet, hauth, hpost⟩ := hguard
    exact .inr (.inl ⟨i, me, rfl, hnet, hauth, hpost, (Option.some.inj h).symm⟩)
  | process i =>
    simp only [step] at h
    cases hqueue : s.messageQueue i with
    | nil =>
      rw [hqueue] at h
      cases h
    | cons me rest =>
      rw [hqueue] at h
      dsimp only at h
      split_ifs at h with hi
      exact .inr (.inr ⟨i, me, rest, rfl, hi, hqueue, (Option.some.inj h).symm⟩)

namespace SystemInv
variable {D : Deployment} {s s' : System}

theorem handed_head (h : SystemInv D s) {i : SchainIndex} {me : MessageEnvelope}
    {rest : List MessageEnvelope} (hi : i ∈ D.correct) (hqueue : s.messageQueue i = me :: rest) :
    Handed D s i me := by
  obtain ⟨hnet, hauth, -⟩ := h.queued i me (hqueue ▸ List.mem_cons_self ..)
  exact ⟨hi, fun _ => hauth, fun hparent => absurd (hnet.symm.trans hparent) (by decide)⟩

theorem step (h : SystemInv D s) {event : Event} (hstep : step D event s = some s') :
    SystemInv D s' := by
  rcases step_cases hstep with ⟨i, K, b, -, hi, hown, rfl⟩ | ⟨i, me, -, hnet, hauth, hpost, rfl⟩ |
    ⟨i, me, rest, -, hi, hqueue, rfl⟩
  · have hme : Handed D s i (proposalEnvelope i K b) := ⟨hi, nofun, fun _ => hown⟩
    exact ⟨h.deliver_consistent hme, fun j me' hqueued => h.queued_deliver hme hqueued⟩
  · refine ⟨h.consistent, fun j me' hqueued => ?_⟩
    by_cases hj : j = i
    · subst hj
      simp only [Function.update_self, List.mem_append, List.mem_singleton] at hqueued
      rcases hqueued with hold | rfl
      · exact h.queued j me' hold
      · exact ⟨hnet, hauth, le_of_shouldPost hpost⟩
    · simp only [Function.update_of_ne hj] at hqueued
      exact h.queued j me' hqueued
  · have hme := h.handed_head hi hqueue
    refine ⟨h.deliver_consistent hme, fun j me' hqueued => h.queued_deliver hme ?_⟩
    by_cases hj : j = i
    · subst hj
      simp only [Function.update_self] at hqueued
      rw [hqueue]
      exact List.mem_cons_of_mem _ hqueued
    · simpa only [Function.update_of_ne hj] using hqueued

end SystemInv

/-- A run about one key leaves the instances of every other alone. -/
def Event.isFor (K : ProtocolKey) : Event → Prop
  | .propose _ K' _ => K' = K
  | .post _ me => me.message.key = K
  | .process _ => True

instance (K : ProtocolKey) (e : Event) : Decidable (e.isFor K) :=
  match e with
  | .propose _ K' _ => inferInstanceAs (Decidable (K' = K))
  | .post _ me => inferInstanceAs (Decidable (me.message.key = K))
  | .process _ => inferInstanceAs (Decidable True)

theorem view_eq_start_of_isFor {K K' : ProtocolKey} {events : List Event}
    (hrun : (machine D).run events = some s) (hfor : ∀ e ∈ events, e.isFor K) (hne : K' ≠ K) :
    s.view K' = fun _ => .start K' := by
  have hinv : (∀ i, ∀ me ∈ s.messageQueue i, me.message.key = K) ∧
      s.view K' = fun _ => .start K' := by
    refine Machine.run_invariant_of_keeps (C := fun e _ => e.isFor K)
      (P := fun s => (∀ i, ∀ me ∈ s.messageQueue i, me.message.key = K) ∧
        s.view K' = fun _ => .start K') hrun
      (Machine.keeps_of_forall (fun e he _ => hfor e he) _) ⟨?_, rfl⟩ ?_
    · exact fun _ _ hme => absurd hme List.not_mem_nil
    · rintro e t t' ⟨hqueue, hview⟩ hkey hstep
      rcases step_cases hstep with ⟨i, L, b, rfl, -, -, rfl⟩ | ⟨i, me, rfl, -, -, -, rfl⟩ |
        ⟨i, me, rest, rfl, -, hhead, rfl⟩
      · refine ⟨hqueue, ?_⟩
        rw [System.view_deliver, if_neg]
        · exact hview
        · exact fun heq => hne (heq.trans hkey)
      · refine ⟨fun j me' hme' => ?_, hview⟩
        by_cases hj : j = i
        · subst hj
          simp only [Function.update_self, List.mem_append, List.mem_singleton] at hme'
          rcases hme' with hold | rfl
          · exact hqueue j me' hold
          · exact hkey
        · simp only [Function.update_of_ne hj] at hme'
          exact hqueue j me' hme'
      · refine ⟨fun j me' hme' => ?_, ?_⟩
        · by_cases hj : j = i
          · subst hj
            simp only [Function.update_self] at hme'
            exact hqueue j me' (hhead ▸ List.mem_cons_of_mem _ hme')
          · simp only [Function.update_of_ne hj] at hme'
            exact hqueue j me' hme'
        · show (t.deliver D i me).view K' = _
          rw [System.view_deliver, if_neg]
          · exact hview
          · exact fun heq => hne (heq.trans (hqueue i me (hhead ▸ List.mem_cons_self ..)))
  exact hinv.2

/-- In every run, whatever the schedule and the Byzantine nodes. -/
theorem systemInv_of_reachable (h : (machine D).Reachable s) :
    SystemInv D s :=
  h.invariant (.start D) fun _ _ _ hs hstep => hs.step hstep

end SkaleConsensus.BinConsensus
