import SkaleConsensus.BinConsensus.Safety
import SkaleConsensus.BinConsensus.Settled

/-! When a binary value reaches every correct node.

A value that is binary at one correct node was counted there from more correct
nodes than a third, so every correct node sends it. Whether it then becomes
binary everywhere is a matter of one vote: a node counts the messages of the
others, but not a value it only relayed. `uniform_of_keeps` says when that vote
is not missed, and `fourNodes_stuck` is a run in which it is: everything has been
delivered, one node lacks the value, and nobody decides. -/
namespace SkaleConsensus.BinConsensus
open Library BinConsensusInstance

/-- Every broadcast of a correct node has been processed by every other one. -/
def Delivered (D : Deployment) (s : System) : Prop :=
  ∀ i ∈ D.correct, ∀ j ∈ D.correct, i ≠ j → ∀ K, ∀ m ∈ (s.children i K).sent,
    ⟨.network, m, i⟩ ∈ s.processed j

/-- Once all correct nodes have proposed and heard each other, a binary value of
one is a binary value of all that entered the round. -/
def Uniform (D : Deployment) (s : System) : Prop :=
  ∀ K, (∀ i ∈ D.correct, (s.children i K).inst.proposals 0 ≠ none) → Delivered D s →
    ∀ i ∈ D.correct, ∀ j ∈ D.correct, ∀ r v, v ∈ (s.children i K).inst.binValues r →
      r ≤ (s.children j K).inst.currentRound → v ∈ (s.children j K).inst.binValues r

/-- Enough nodes that a single vote is not missed. -/
def SpareVote (D : Deployment) : Prop := 3 * D.byzantine.card + 3 < D.nodeCount

instance (D : Deployment) : Decidable (SpareVote D) := inferInstanceAs (Decidable (_ < _))

instance (c : Schain) (s : Exec) (me : MessageEnvelope) : Decidable (RelaysOwn c s me) :=
  inferInstanceAs (Decidable (_ → _))

/-- The BVB messages a correct node takes are binary, and unless there is a vote to
spare it relays only what it counts for itself. -/
def UniformStep (D : Deployment) : Event → System → Prop
  | .process i, s =>
    match s.messageQueue i with
    | [] => True
    | me :: _ => me.message.msgType = .bvBroadcast → me.message.value.IsBinary ∧
      (SpareVote D ∨ RelaysOwn (D.node i) (s.view me.message.key i) me)
  | _, _ => True

/-! ### What is sent is binary -/

structure BinaryExec (s : Exec) : Prop where
  binValues : ∀ r, ∀ v ∈ s.inst.binValues r, v.IsBinary
  sent : ∀ m ∈ s.sent, m.msgType = .bvBroadcast →
    m.value.IsBinary ∧ m.value ∈ s.inst.broadcastValues m.r
  broadcastValues : ∀ r b, Value.ofBool b ∈ s.inst.broadcastValues r → Sent s .bvBroadcast b r

theorem BinaryExec.start (K : ProtocolKey) : BinaryExec (.start K) where
  binValues _ v hv := absurd hv (Finset.notMem_empty v)
  sent _ hm := absurd hm List.not_mem_nil
  broadcastValues _ _ h := absurd h (Finset.notMem_empty _)

theorem ExecInv.isBinary_of_named {c : Schain} {K : ProtocolKey} {s : Exec} {me : MessageEnvelope}
    (hi : ExecInv c K s)
    (hme : me.message.msgType = .bvBroadcast → me.message.value.IsBinary) {r : ℕ} {v : Value}
    (h : Named me s r v) : v.IsBinary := by
  rcases h with hproposed | ⟨htype, -, rfl⟩
  · obtain ⟨b, rfl⟩ := hi.binary r v hproposed
    exact Value.isBinary_ofBool b
  · exact hme htype

section Binary
variable {c : Schain} {K : ProtocolKey} {s s' : Exec} {me : MessageEnvelope}

theorem BinaryExec.sendValue (h : BinaryExec s) {m : Message} (hm : m.value.IsBinary) :
    BinaryExec (s.sendValue m) := by
  have hmem := s.mem_broadcastValues_sendValue hm
  refine ⟨h.binValues, fun m' hm' htype => ?_, fun r b hb => ?_⟩
  · rcases List.mem_append.mp hm' with hold | hlast
    · obtain ⟨hbinary, hknown⟩ := h.sent m' hold htype
      exact ⟨hbinary, (hmem _ _).mpr (.inl hknown)⟩
    · obtain rfl := List.mem_singleton.mp hlast
      exact ⟨hm, (hmem _ _).mpr (.inr ⟨rfl, rfl⟩)⟩
  · rcases (hmem r _).mp hb with hold | ⟨rfl, hlast⟩
    · obtain ⟨m', hm', hfields⟩ := h.broadcastValues r b hold
      exact ⟨m', List.mem_append_left _ hm', hfields⟩
    · refine ⟨_, List.mem_append_right _ (List.mem_singleton_self _), rfl, rfl, ?_⟩
      show m.value.toBool = b
      rw [← hlast, Value.toBool_ofBool]

theorem BinaryExec.insertBin (h : BinaryExec s) {r : ℕ} {v : Value} (hv : v.IsBinary) :
    BinaryExec (s.binValue r v) := by
  refine ⟨fun r' v' hv' => ?_, h.sent, h.broadcastValues⟩
  rcases s.mem_binValues_binValue.mp hv' with hold | ⟨-, rfl⟩
  · exact h.binValues r' v' hold
  · exact hv

theorem BinaryExec.step (h : BinaryExec s) (hi : ExecInv c K s)
    (hme : me.message.msgType = .bvBroadcast → me.message.value.IsBinary)
    (heff : Effect c me s s') : BinaryExec s' := by
  cases heff with
  | sendValue m hkey hnew hreason =>
    refine h.sendValue (hi.isBinary_of_named hme (r := m.r) ?_)
    rcases hreason with hproposed | ⟨htype, rfl, -⟩
    · exact .inl hproposed
    · exact .inr ⟨htype, rfl, rfl⟩
  | firstBinValue r v hnamed hempty hq =>
    have hbin := h.insertBin (r := r) (hi.isBinary_of_named hme hnamed)
    refine ⟨hbin.binValues, fun m hm htype => ?_, fun r' b hb => ?_⟩
    · rcases List.mem_append.mp hm with hold | hlast
      · exact hbin.sent m hold htype
      · obtain rfl := List.mem_singleton.mp hlast
        cases htype
    · obtain ⟨m, hm, hfields⟩ := hbin.broadcastValues r' b hb
      exact ⟨m, List.mem_append_left _ hm, hfields⟩
  | binValue r v hnamed hne hq => exact h.insertBin (hi.isBinary_of_named hme hnamed)
  | _ => exact ⟨h.binValues, h.sent, h.broadcastValues⟩

theorem BinaryExec.steps (h : BinaryExec s) (hi : ExecInv c K s)
    (hme : me.message.msgType = .bvBroadcast → me.message.value.IsBinary)
    (heff : Effects c me s s') : BinaryExec s' := by
  have hboth : BinaryExec s' ∧ ExecInv c K s' := by
    induction heff with
    | refl => exact ⟨h, hi⟩
    | tail _ hlast ih => exact ⟨ih.1.step ih.2 hme hlast, ih.2.step hlast⟩
  exact hboth.1

end Binary

/-! ### Along a run -/

structure UniformInv (D : Deployment) (s : System) : Prop where
  settled : ∀ K i, Settled (D.node i) (¬ SpareVote D) beyond (s.view K i)
  binary : ∀ K i, BinaryExec (s.view K i)
  /-- What was processed was counted. -/
  processed : ∀ i, ∀ me ∈ s.processed i, me.message.msgType = .bvBroadcast →
    me.srcSchainIndex ∈
      (s.view me.message.key i).inst.bvbVotes me.message.value.toBool me.message.r

/-- What is asked of a message before it is handed to a node. -/
def UniformMessage (D : Deployment) (s : System) (i : SchainIndex) (me : MessageEnvelope) : Prop :=
  me.message.msgType = .bvBroadcast → me.message.value.IsBinary ∧
    (¬ SpareVote D → me.origin = .network → RelaysOwn (D.node i) (s.view me.message.key i) me)

namespace UniformInv
variable {D : Deployment} {s s' : System} {i : SchainIndex} {me : MessageEnvelope}

theorem start (D : Deployment) : UniformInv D .start where
  settled K i := .start (D.node i) _ beyond K
  binary K _ := .start K
  processed _ _ hme := absurd hme List.not_mem_nil

theorem deliver_settled (h : UniformInv D s) (hs : SystemInv D s) (hme : Handed D s i me)
    (hu : UniformMessage D s i me) (K : ProtocolKey) (j : SchainIndex) :
    Settled (D.node j) (¬ SpareVote D) beyond ((s.deliver D i me).view K j) := by
  rw [System.view_deliver]
  split_ifs with hK
  case neg => exact h.settled K j
  by_cases hj : j = i
  case neg =>
    rw [Function.update_of_ne hj]
    exact h.settled K j
  subst hj
  subst hK
  rw [Function.update_self]
  have hexec := (hs.consistent me.message.key).exec j
  have hold := h.settled me.message.key j
  rw [finalState_congr (processMessage_run hexec.key.symm)]
  cases horigin : me.origin with
  | parent => exact processParentProposal_settled (hme.parent horigin) hold
  | network =>
    cases htype : me.message.msgType with
    | auxBroadcast => exact processAUX_settled htype hold
    | bvBroadcast =>
      obtain ⟨hbinary, hrelay⟩ := hu htype
      refine processBVB_settled htype hbinary (fun hspare => hrelay hspare horigin) ?_ hold
      intro hd
      obtain ⟨-, random, -, hvalue, -⟩ := hexec.decision hd
      exact ⟨_, hvalue⟩

theorem deliver_binary (h : UniformInv D s) (hs : SystemInv D s) (hme : Handed D s i me)
    (hu : UniformMessage D s i me) (K : ProtocolKey) (j : SchainIndex) :
    BinaryExec ((s.deliver D i me).view K j) := by
  rw [System.view_deliver]
  split_ifs with hK
  case neg => exact h.binary K j
  by_cases hj : j = i
  case neg =>
    rw [Function.update_of_ne hj]
    exact h.binary K j
  subst hj
  subst hK
  rw [Function.update_self]
  exact (h.binary _ j).steps ((hs.consistent _).exec j) (fun htype => (hu htype).1)
    (hs.deliver_effects hme)

theorem processed_deliver (h : UniformInv D s) (hs : SystemInv D s) (hme : Handed D s i me)
    {j : SchainIndex} {me' : MessageEnvelope} (hdone : me' ∈ s.processed j)
    (htype : me'.message.msgType = .bvBroadcast) : me'.srcSchainIndex ∈
      ((s.deliver D i me).view me'.message.key j).inst.bvbVotes me'.message.value.toBool
        me'.message.r :=
  (hs.deliver_grows hme me'.message.key j).bvbVotes _ _ (h.processed j me' hdone htype)

/-- The message just taken from the queue is counted. -/
theorem counted_deliver (hs : SystemInv D s) (hnet : me.origin = .network)
    (hround : me.message.r ≤ (s.view me.message.key i).inst.currentRound + 1)
    (htype : me.message.msgType = .bvBroadcast) : me.srcSchainIndex ∈
      ((s.deliver D i me).view me.message.key i).inst.bvbVotes me.message.value.toBool
        me.message.r := by
  have hexec := (hs.consistent me.message.key).exec i
  rw [System.view_deliver, if_pos rfl, Function.update_self,
    finalState_congr (processMessage_run hexec.key.symm), hnet]
  refine (processBVB_effects_of_vote htype hexec.key.symm hexec.decidedInTime
    hround).grows.bvbVotes _ _ ?_
  show me.srcSchainIndex ∈ (bvbVoteCore _ _ _ _).bvbVotes _ _
  rw [bvbVotes_bvbVoteCore, if_pos ⟨rfl, rfl⟩]
  exact Finset.mem_insert_self _ _

theorem step (h : UniformInv D s) (hs : SystemInv D s) {event : Event}
    (hu : UniformStep D event s) (hstep : step D event s = some s') : UniformInv D s' := by
  rcases step_cases hstep with ⟨i, K, b, -, hi, hown, rfl⟩ | ⟨i, me, -, -, -, -, rfl⟩ |
    ⟨i, me, rest, rfl, hi, hqueue, rfl⟩
  · have hme : Handed D s i (proposalEnvelope i K b) := ⟨hi, nofun, fun _ => hown⟩
    have hu' : UniformMessage D s i (proposalEnvelope i K b) :=
      fun _ => ⟨Value.isBinary_ofBool b, nofun⟩
    exact ⟨h.deliver_settled hs hme hu', h.deliver_binary hs hme hu',
      fun j me' hdone htype => h.processed_deliver hs hme hdone htype⟩
  · exact ⟨h.settled, h.binary, h.processed⟩
  · have hme := hs.handed_head hi hqueue
    have hu' : UniformMessage D s i me := by
      intro htype
      simp only [UniformStep, hqueue] at hu
      obtain ⟨hbinary, hrelay⟩ := hu htype
      exact ⟨hbinary, fun hspare _ => hrelay.resolve_left hspare⟩
    refine ⟨h.deliver_settled hs hme hu', h.deliver_binary hs hme hu', fun j me' hdone htype => ?_⟩
    by_cases hj : j = i
    · subst hj
      simp only [Function.update_self, List.mem_append, List.mem_singleton] at hdone
      rcases hdone with hold | rfl
      · exact h.processed_deliver hs hme hold htype
      · obtain ⟨hnet, -, hround⟩ := hs.queued j me' (hqueue ▸ List.mem_cons_self ..)
        exact counted_deliver hs hnet hround htype
    · simp only [Function.update_of_ne hj] at hdone
      exact h.processed_deliver hs hme hdone htype

end UniformInv

/-! ### Counting -/

variable {D : Deployment}

theorem isThird_iff {i : SchainIndex} {count : ℕ} :
    isThird (D.node i) count = true ↔ D.nodeCount < 3 * count := by
  simp only [isThird, D.node_nodeCount, decide_eq_true_eq]
  omega

theorem isTwoThird_iff {i : SchainIndex} {count : ℕ} :
    isTwoThird (D.node i) count = true ↔ 2 * D.nodeCount < 3 * count := by
  simp only [isTwoThird, D.node_nodeCount, decide_eq_true_eq]
  omega

theorem Deployment.card_correct (D : Deployment) :
    D.correct.card + D.byzantine.card = D.nodeCount := by
  rw [← D.card_nodes]
  exact Finset.card_sdiff_add_card_eq_card D.byzantine_subset

section Counting
variable {D : Deployment} {s : System} {K : ProtocolKey} {r : ℕ} {b : Bool} {j : SchainIndex}

theorem sent_of_counted (hs : SystemInv D s) (hu : UniformInv D s) {i k : SchainIndex}
    (hk : k ∈ (s.view K i).inst.bvbVotes b r) (hcorrect : k ∈ D.correct)
    (hquorum : isThird (D.node i) ((s.view K i).inst.bvbVotes b r).card = true) :
    Sent (s.view K k) .bvBroadcast b r := by
  rcases ((hs.consistent K).bvbVotes i b r k hk).2 hcorrect with ⟨rfl, -⟩ | hsent
  · exact (hu.binary K k).broadcastValues r b ((hu.settled K k).relayed r b hquorum)
  · exact hsent

theorem counted_of_sent (hs : SystemInv D s) (hu : UniformInv D s) (hdelivered : Delivered D s)
    {k : SchainIndex} (hk : k ∈ D.correct) (hj : j ∈ D.correct) (hne : k ≠ j)
    (hsent : Sent (s.view K k) .bvBroadcast b r) : k ∈ (s.view K j).inst.bvbVotes b r := by
  obtain ⟨m, hm, htype, rfl, rfl⟩ := hsent
  have hdone := hdelivered k hk j hj hne K m hm
  have hkey : m.key = K := ((hs.consistent K).exec k).sentKey m hm
  have hcounted := hu.processed j _ hdone htype
  rwa [hkey] at hcounted

theorem all_sent (hs : SystemInv D s) (hu : UniformInv D s) (hdelivered : Delivered D s)
    {i : SchainIndex} (hquorum : isTwoThird (D.node i) ((s.view K i).inst.bvbVotes b r).card = true)
    (hj : j ∈ D.correct) : Sent (s.view K j) .bvBroadcast b r := by
  have hcount := isTwoThird_iff.mp hquorum
  have hthird : isThird (D.node i) ((s.view K i).inst.bvbVotes b r).card = true :=
    isThird_iff.mpr (by omega)
  by_cases hmem : j ∈ (s.view K i).inst.bvbVotes b r
  · exact sent_of_counted hs hu hmem hj hthird
  · -- the correct voters of `i` are all voters of `j`, and more than a third
    have hsubset :
        (s.view K i).inst.bvbVotes b r \ D.byzantine ⊆ (s.view K j).inst.bvbVotes b r := by
      intro k hk
      obtain ⟨hvoter, hbyz⟩ := Finset.mem_sdiff.mp hk
      have hnode := ((hs.consistent K).bvbVotes i b r k hvoter).1
      have hcorrect := Deployment.mem_correct_of_notMem hnode hbyz
      refine counted_of_sent hs hu hdelivered hcorrect hj ?_
        (sent_of_counted hs hu hvoter hcorrect hthird)
      rintro rfl
      exact hmem hvoter
    have hcard := Finset.card_le_card hsubset
    have hsdiff := Finset.le_card_sdiff D.byzantine ((s.view K i).inst.bvbVotes b r)
    have hbyz := D.byzantine_lt_third
    have hthird' : isThird (D.node j) ((s.view K j).inst.bvbVotes b r).card = true :=
      isThird_iff.mpr (by omega)
    exact (hu.binary K j).broadcastValues r b ((hu.settled K j).relayed r b hthird')

/-- Then every correct node counts two thirds, unless it misses its own vote. -/
theorem two_thirds_of_all_sent (hs : SystemInv D s) (hu : UniformInv D s)
    (hdelivered : Delivered D s) (hsent : ∀ k ∈ D.correct, Sent (s.view K k) .bvBroadcast b r)
    (hj : j ∈ D.correct) :
    isTwoThird (D.node j) ((s.view K j).inst.bvbVotes b r).card = true := by
  have hothers : D.correct.erase j ⊆ (s.view K j).inst.bvbVotes b r := by
    intro k hk
    obtain ⟨hne, hcorrect⟩ := Finset.mem_erase.mp hk
    exact counted_of_sent hs hu hdelivered hcorrect hj hne (hsent k hcorrect)
  have hcorrect := D.card_correct
  have hbyz := D.byzantine_lt_third
  rw [isTwoThird_iff]
  by_cases hspare : SpareVote D
  · have hcard := Finset.card_le_card hothers
    rw [Finset.card_erase_of_mem hj] at hcard
    unfold SpareVote at hspare
    omega
  · have hself : j ∈ (s.view K j).inst.bvbVotes b r := by
      obtain ⟨m, hm, htype, rfl, rfl⟩ := hsent j hj
      obtain ⟨hbinary, hremembered⟩ := (hu.binary K j).sent m hm htype
      rw [hbinary] at hremembered
      have hcounted := (hu.settled K j).counted hspare _ _ hremembered
      rwa [D.node_schainIndex] at hcounted
    have hall : D.correct ⊆ (s.view K j).inst.bvbVotes b r := by
      rw [← Finset.insert_erase hj]
      exact Finset.insert_subset hself hothers
    have hcard := Finset.card_le_card hall
    omega

end Counting

/-- In every run that keeps to `UniformStep`, a binary value reaches everyone. -/
theorem uniform_of_keeps {D : Deployment} {events : List Event} {s : System}
    (hrun : (machine D).run events = some s)
    (hkeeps : (machine D).Keeps (UniformStep D) .start events) : Uniform D s := by
  have hinv : SystemInv D s ∧ UniformInv D s :=
    Machine.run_invariant_of_keeps (P := fun s => SystemInv D s ∧ UniformInv D s) hrun hkeeps
      ⟨.start D, .start D⟩ fun e s s' h hu hstep => ⟨h.1.step hstep, h.2.step h.1 hu hstep⟩
  obtain ⟨hs, hu⟩ := hinv
  intro K _ hdelivered i hi j hj r v hv hround
  obtain ⟨b, rfl⟩ : ∃ b, v = Value.ofBool b := ⟨_, (hu.binary K i).binValues r v hv⟩
  have hquorum := ((hs.consistent K).exec i).quorum r _ hv
  rw [getBVBVoteCount, Value.toBool_ofBool] at hquorum
  have hbounded := ((hs.consistent K).exec j).bounded
  refine (hu.settled K j).closed r b ?_ ?_
  · show ¬ 100 < r
    change r ≤ (s.view K j).inst.currentRound at hround
    omega
  · exact two_thirds_of_all_sent hs hu hdelivered
      (fun k hk => all_sent hs hu hdelivered hquorum hk) hj

/-- The messages of one key have all been processed. -/
def DeliveredFor (D : Deployment) (K : ProtocolKey) (s : System) : Prop :=
  ∀ i ∈ D.correct, ∀ j ∈ D.correct, i ≠ j → ∀ m ∈ (s.children i K).sent,
    ⟨.network, m, i⟩ ∈ s.processed j

instance (D : Deployment) (K : ProtocolKey) (s : System) : Decidable (DeliveredFor D K s) :=
  inferInstanceAs (Decidable (∀ i ∈ D.correct, ∀ j ∈ D.correct, i ≠ j →
    ∀ m ∈ (s.children i K).sent, ⟨.network, m, i⟩ ∈ s.processed j))

theorem DeliveredFor.delivered {K : ProtocolKey} {events : List Event} {s : System}
    (h : DeliveredFor D K s) (hrun : (machine D).run events = some s)
    (hfor : ∀ e ∈ events, e.isFor K) : Delivered D s := by
  intro i hi j hj hne K' m hm
  by_cases hK : K' = K
  · subst hK
    exact h i hi j hj hne m hm
  · have hstart := congrFun (view_eq_start_of_isFor hrun hfor hK) i
    change s.children i K' = .start K' at hstart
    rw [hstart] at hm
    exact absurd hm List.not_mem_nil

/-- Node `i` sends a message of `firstKey` to the other two correct nodes. -/
def sends (i j k : SchainIndex) (msgType : MsgType) (b : Bool) : List Event :=
  hears j i msgType 0 b ++ hears k i msgType 0 b

def proposals (a b c : Bool) : List Event :=
  [.propose 1 firstKey a, .propose 2 firstKey b, .propose 3 firstKey c]

/-- All three correct nodes propose true. -/
def unanimousRun : List Event :=
  proposals true true true ++ sends 1 2 3 .bvBroadcast true ++ sends 2 1 3 .bvBroadcast true ++
  sends 3 1 2 .bvBroadcast true ++ sends 1 2 3 .auxBroadcast true ++
  sends 2 1 3 .auxBroadcast true ++ sends 3 1 2 .auxBroadcast true

instance (D : Deployment) : ∀ (e : Event) (s : System), Decidable (UniformStep D e s)
  | .process i, s => match h : s.messageQueue i with
    | [] => .isTrue (by simp only [UniformStep, h])
    | me :: _ => decidable_of_iff (me.message.msgType = .bvBroadcast → me.message.value.IsBinary ∧
      (SpareVote D ∨ RelaysOwn (D.node i) (s.view me.message.key i) me))
      (by simp only [UniformStep, h])
  | .propose .., _ => .isTrue trivial
  | .post .., _ => .isTrue trivial

theorem uniform_of_keeps_fourNodes :
    ∃ s, (machine fourNodes).run unanimousRun = some s ∧
      (machine fourNodes).Keeps (UniformStep fourNodes) .start unanimousRun ∧
      1 ∈ (s.children 1 firstKey).inst.binValues 0 ∧
      1 ∈ (s.children 3 firstKey).inst.binValues 0 := by
  obtain ⟨s, hrun, hproposed, hdelivered, hbin⟩ : ∃ s,
      (machine fourNodes).run unanimousRun = some s ∧
      (∀ i ∈ fourNodes.correct, (s.children i firstKey).inst.proposals 0 ≠ none) ∧
      DeliveredFor fourNodes firstKey s ∧ 1 ∈ (s.children 1 firstKey).inst.binValues 0 :=
    Machine.exists_run (by decide +kernel)
  have hkeeps : (machine fourNodes).Keeps (UniformStep fourNodes) .start unanimousRun := by
    decide +kernel
  refine ⟨s, hrun, hkeeps, hbin, ?_⟩
  exact uniform_of_keeps hrun hkeeps firstKey hproposed (hdelivered.delivered hrun (by decide))
    1 (by decide) 3 (by decide) 0 1 hbin (Nat.zero_le _)

/-- Nodes 1 and 2 propose true, node 3 proposes false and relays true, and
everything is delivered. -/
def stuckRun : List Event :=
  proposals true true false ++ sends 1 2 3 .bvBroadcast true ++ sends 2 1 3 .bvBroadcast true ++
  sends 3 1 2 .bvBroadcast false ++ sends 3 1 2 .bvBroadcast true ++
  sends 1 2 3 .auxBroadcast true ++ sends 2 1 3 .auxBroadcast true

/-- True is binary at nodes 1 and 2 and never becomes binary at node 3. -/
theorem fourNodes_stuck :
    ∃ s, (machine fourNodes).run stuckRun = some s ∧
      (∀ i ∈ fourNodes.correct, (s.children i firstKey).inst.isDecided = false) ∧
      ¬ Uniform fourNodes s := by
  obtain ⟨s, hrun, hproposed, hdelivered, hundecided, hbin, hmissing⟩ : ∃ s,
      (machine fourNodes).run stuckRun = some s ∧
      (∀ i ∈ fourNodes.correct, (s.children i firstKey).inst.proposals 0 ≠ none) ∧
      DeliveredFor fourNodes firstKey s ∧
      (∀ i ∈ fourNodes.correct, (s.children i firstKey).inst.isDecided = false) ∧
      1 ∈ (s.children 1 firstKey).inst.binValues 0 ∧
      1 ∉ (s.children 3 firstKey).inst.binValues 0 :=
    Machine.exists_run (by decide +kernel)
  refine ⟨s, hrun, hundecided, fun huniform => hmissing ?_⟩
  exact huniform firstKey hproposed (hdelivered.delivered hrun (by decide))
    1 (by decide) 3 (by decide) 0 1 hbin (Nat.zero_le _)

end SkaleConsensus.BinConsensus
