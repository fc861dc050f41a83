import SkaleConsensus.BinConsensus.Handlers

/-! What an instance has acted on when a handler is done.

Between two instructions of a handler a quorum may be counted and not yet acted
on. When the handler is done, a third of the votes has been relayed and two
thirds have made the value binary, whatever was thrown on the way: the one throw
that can come in between is the check of round one hundred, and it concerns a
round that nobody enters. -/
namespace SkaleConsensus.BinConsensus
open Library Exec BinConsensusInstance Value

/-- Outside the votes of `E`, what is counted has been acted on. With `own`, what
was sent was also counted by the sender itself. -/
structure Settled (c : Schain) (own : Prop) (E : Set (ℕ × Bool)) (s : Exec) : Prop where
  relayed : ∀ r b, isThird c (s.inst.bvbVotes b r).card = true →
    Value.ofBool b ∈ s.inst.broadcastValues r
  closed : ∀ r b, (r, b) ∉ E → isTwoThird c (s.inst.bvbVotes b r).card = true →
    Value.ofBool b ∈ s.inst.binValues r
  counted : own → ∀ r b, Value.ofBool b ∈ s.inst.broadcastValues r →
    c.schainIndex ∈ s.inst.bvbVotes b r

theorem Settled.start (c : Schain) (own : Prop) (E : Set (ℕ × Bool)) (K : ProtocolKey) :
    Settled c own E ⟨.create K, [], [], []⟩ where
  relayed r b h := by
    cases b <;> simp [isThird, BinConsensusInstance.create, BinConsensusInstance.bvbVotes] at h
  closed r b _ h := by
    cases b <;> simp [isTwoThird, BinConsensusInstance.create, BinConsensusInstance.bvbVotes] at h
  counted _ r b h := absurd h (Finset.notMem_empty _)

/-! ### The fields that count -/

namespace Exec
variable (s : Exec) (c : Schain) (m : Message) (r : ℕ) (v : Value)

theorem bvbVotes_broadcastValue : (s.broadcastValue m).inst.bvbVotes = s.inst.bvbVotes := by
  unfold broadcastValue
  split <;> rfl

theorem binValues_broadcastValue : (s.broadcastValue m).inst.binValues = s.inst.binValues := by
  unfold broadcastValue
  split <;> rfl

/-- A binary value is remembered as itself. -/
theorem broadcastValues_broadcastValue {b : Bool} (hb : m.value = Value.ofBool b) :
    (s.broadcastValue m).inst.broadcastValues =
      Function.update s.inst.broadcastValues m.r
        (insert (Value.ofBool b) (s.inst.broadcastValues m.r)) := by
  have hself : Value.ofBool (m.value == 1) = Value.ofBool b := by
    rw [hb]
    cases b <;> rfl
  unfold broadcastValue
  split_ifs with hsent
  · rw [← hb, Finset.insert_eq_of_mem hsent, Function.update_eq_self]
  · show Function.update s.inst.broadcastValues m.r
      (insert (Value.ofBool (m.value == 1)) (s.inst.broadcastValues m.r)) = _
    rw [hself]

theorem bvbVotes_addBinValue : (s.addBinValue c r v).inst.bvbVotes = s.inst.bvbVotes := by
  unfold addBinValue
  split <;> rfl

theorem broadcastValues_addBinValue :
    (s.addBinValue c r v).inst.broadcastValues = s.inst.broadcastValues := by
  unfold addBinValue
  split <;> rfl

theorem binValues_addBinValue :
    (s.addBinValue c r v).inst.binValues =
      Function.update s.inst.binValues r (insert v (s.inst.binValues r)) := by
  unfold addBinValue
  split <;> rfl

end Exec

namespace Settled
variable {c : Schain} {own : Prop} {E : Set (ℕ × Bool)} {s : Exec} {r : ℕ} {b : Bool}

/-- A move that leaves votes, sent and binary values alone. -/
theorem of_eq (h : Settled c own E s) {s' : Exec} (hvotes : s'.inst.bvbVotes = s.inst.bvbVotes)
    (hsent : s'.inst.broadcastValues = s.inst.broadcastValues)
    (hbin : s'.inst.binValues = s.inst.binValues) : Settled c own E s' := by
  obtain ⟨hrelayed, hclosed, hcounted⟩ := h
  rw [← hvotes, ← hsent] at hrelayed hcounted
  rw [← hvotes, ← hbin] at hclosed
  exact ⟨hrelayed, hclosed, hcounted⟩

/-- The excepted vote is acted on, or not there to be acted on. -/
theorem of_insert (h : Settled c own (insert (r, b) E) s)
    (hdone : (r, b) ∉ E → isTwoThird c (s.inst.bvbVotes b r).card = true →
      Value.ofBool b ∈ s.inst.binValues r) : Settled c own E s := by
  refine ⟨h.relayed, fun r' b' hE hq => ?_, h.counted⟩
  by_cases hp : (r', b') = (r, b)
  · obtain ⟨rfl, rfl⟩ := Prod.mk.inj hp
    exact hdone hE hq
  · refine h.closed r' b' (fun hmem => ?_) hq
    rcases Set.mem_insert_iff.mp hmem with heq | hold
    · exact hp heq
    · exact hE hold

theorem addBinValue (h : Settled c own (insert (r, b) E) s) :
    Settled c own E (s.addBinValue c r (Value.ofBool b)) := by
  have hstep : Settled c own (insert (r, b) E) (s.addBinValue c r (Value.ofBool b)) := by
    refine ⟨?_, fun r' b' hE hq => ?_, ?_⟩
    · rw [bvbVotes_addBinValue, broadcastValues_addBinValue]
      exact h.relayed
    · rw [bvbVotes_addBinValue] at hq
      rw [binValues_addBinValue]
      have hold := h.closed r' b' hE hq
      by_cases hr : r' = r
      · subst hr
        rw [Function.update_self]
        exact Finset.mem_insert_of_mem hold
      · rwa [Function.update_of_ne hr]
    · rw [bvbVotes_addBinValue, broadcastValues_addBinValue]
      exact h.counted
  refine hstep.of_insert fun _ _ => ?_
  rw [binValues_addBinValue, Function.update_self]
  exact Finset.mem_insert_self _ _

/-- A vote counted before changes nothing. -/
theorem vote_of_mem (h : Settled c own E s) {v : Value} {k : SchainIndex}
    (hk : k ∈ s.inst.bvbVotes v.toBool r) : Settled c own E (s.vote r v k) := by
  refine h.of_eq ?_ rfl rfl
  funext b r'
  show (s.inst.bvbVoteCore r v k).bvbVotes b r' = s.inst.bvbVotes b r'
  rw [bvbVotes_bvbVoteCore]
  split_ifs with hsame
  · obtain ⟨rfl, rfl⟩ := hsame
    exact Finset.insert_eq_of_mem hk
  · rfl

/-- A vote for `b` in round `r`, which is relayed if it makes a third. -/
theorem of_vote (h : Settled c own E s) {s' : Exec}
    (hvotes : ∀ r' b', (r', b') ≠ (r, b) → s'.inst.bvbVotes b' r' = s.inst.bvbVotes b' r')
    (hsent : ∀ r' b', (r', b') ≠ (r, b) → (Value.ofBool b' ∈ s'.inst.broadcastValues r' ↔
      Value.ofBool b' ∈ s.inst.broadcastValues r')) (hbin : s'.inst.binValues = s.inst.binValues)
    (hrelayed : isThird c (s'.inst.bvbVotes b r).card = true →
      Value.ofBool b ∈ s'.inst.broadcastValues r)
    (hcounted : own → Value.ofBool b ∈ s'.inst.broadcastValues r →
      c.schainIndex ∈ s'.inst.bvbVotes b r) : Settled c own (insert (r, b) E) s' := by
  refine ⟨fun r' b' hthird => ?_, fun r' b' hE hq => ?_, fun hown r' b' hmem => ?_⟩
  · by_cases hp : (r', b') = (r, b)
    · obtain ⟨rfl, rfl⟩ := Prod.mk.inj hp
      exact hrelayed hthird
    · rw [hvotes r' b' hp] at hthird
      exact (hsent r' b' hp).mpr (h.relayed r' b' hthird)
  · have hp : (r', b') ≠ (r, b) := fun heq => hE (heq ▸ Set.mem_insert _ _)
    rw [hvotes r' b' hp] at hq
    rw [hbin]
    exact h.closed r' b' (fun hmem => hE (Set.mem_insert_of_mem _ hmem)) hq
  · by_cases hp : (r', b') = (r, b)
    · obtain ⟨rfl, rfl⟩ := Prod.mk.inj hp
      exact hcounted hown hmem
    · rw [hvotes r' b' hp]
      exact h.counted hown r' b' ((hsent r' b' hp).mp hmem)

end Settled

variable {b : Bool}

/-- Sending a value changes what is sent for that value only. -/
theorem Exec.mem_broadcastValues_of_ne (s : Exec) {m : Message} {b' : Bool} {r' : ℕ}
    (hb : m.value = Value.ofBool b) (hp : (r', b') ≠ (m.r, b)) :
    Value.ofBool b' ∈ (s.broadcastValue m).inst.broadcastValues r' ↔
      Value.ofBool b' ∈ s.inst.broadcastValues r' := by
  rw [s.broadcastValues_broadcastValue m hb]
  by_cases hr : r' = m.r
  · subst hr
    have hne : Value.ofBool b' ≠ Value.ofBool b :=
      fun heq => hp (by rw [ofBool_injective heq])
    rw [Function.update_self, Finset.mem_insert, or_iff_right hne]
  · rw [Function.update_of_ne hr]

theorem Exec.mem_broadcastValues_self (s : Exec) {m : Message} (hb : m.value = Value.ofBool b) :
    Value.ofBool b ∈ (s.broadcastValue m).inst.broadcastValues m.r := by
  rw [s.broadcastValues_broadcastValue m hb, Function.update_self]
  exact Finset.mem_insert_self _ _

theorem Exec.bvbVotes_vote (s : Exec) {r : ℕ} {v : Value} (k : SchainIndex)
    (hb : v = Value.ofBool b) :
    (s.vote r v k).inst.bvbVotes b r = insert k (s.inst.bvbVotes b r) := by
  show (s.inst.bvbVoteCore r v k).bvbVotes b r = _
  rw [bvbVotes_bvbVoteCore, if_pos ⟨rfl, by rw [hb, toBool_ofBool]⟩]

theorem Exec.bvbVotes_vote_of_ne (s : Exec) {r r' : ℕ} {v : Value} {b' : Bool} (k : SchainIndex)
    (hb : v = Value.ofBool b) (hp : (r', b') ≠ (r, b)) :
    (s.vote r v k).inst.bvbVotes b' r' = s.inst.bvbVotes b' r' := by
  show (s.inst.bvbVoteCore r v k).bvbVotes b' r' = _
  rw [bvbVotes_bvbVoteCore, if_neg]
  rintro ⟨rfl, hv⟩
  rw [hb, toBool_ofBool] at hv
  exact hp (by rw [hv])

/-- The relay of a counted value is of a value the node counts for itself, or was
done before. -/
def RelaysOwn (c : Schain) (s : Exec) (me : MessageEnvelope) : Prop :=
  let s' := s.vote me.message.r me.message.value me.srcSchainIndex
  isThird c (s'.inst.getBVBVoteCount me.message.value me.message.r) = true →
    me.message.value ∈ s.inst.broadcastValues me.message.r ∨
    c.schainIndex ∈ s'.inst.bvbVotes me.message.value.toBool me.message.r

section Handlers
variable {c : Schain} {own : Prop} {E : Set (ℕ × Bool)} {me : MessageEnvelope}
  {next : Value → Handler Unit} {s : Exec} {b : Bool}

/-- A value sent and counted by the node itself. -/
theorem Settled.sendAndCount (h : Settled c own E s) {m : Message} (hb : m.value = Value.ofBool b) :
    Settled c own (insert (m.r, b) E) ((s.broadcastValue m).vote m.r m.value c.schainIndex) := by
  refine h.of_vote (fun r' b' hp => ?_) (fun r' b' hp => ?_) ?_ (fun _ => ?_) fun _ _ => ?_
  · rw [bvbVotes_vote_of_ne _ _ hb hp, bvbVotes_broadcastValue]
  · exact s.mem_broadcastValues_of_ne hb hp
  · exact s.binValues_broadcastValue m
  · exact s.mem_broadcastValues_self hb
  · rw [bvbVotes_vote _ _ hb]
    exact Finset.mem_insert_self _ _

/-- A vote from the network, relayed if it makes a third. -/
theorem Settled.voteAndRelay (h : Settled c own E s) (hb : me.message.value = Value.ofBool b)
    (hrelay : own → RelaysOwn c s me) :
    Settled c own (insert (me.message.r, b) E)
      ((s.vote me.message.r me.message.value me.srcSchainIndex).relayed c me.message) := by
  have htoBool : me.message.value.toBool = b := by rw [hb, toBool_ofBool]
  unfold RelaysOwn at hrelay
  unfold Exec.relayed
  simp only [BinConsensusInstance.getBVBVoteCount, htoBool] at hrelay ⊢
  have hvotes : ∀ r' b', (r', b') ≠ (me.message.r, b) →
      (s.vote me.message.r me.message.value me.srcSchainIndex).inst.bvbVotes b' r' =
        s.inst.bvbVotes b' r' := fun r' b' hp => bvbVotes_vote_of_ne _ _ hb hp
  have hold : own → Value.ofBool b ∈ s.inst.broadcastValues me.message.r → c.schainIndex ∈
      (s.vote me.message.r me.message.value me.srcSchainIndex).inst.bvbVotes b me.message.r :=
    fun hown hsent => bvbVotes_subset_bvbVoteCore _ _ _ _ _ _ (h.counted hown _ b hsent)
  split_ifs with hthird
  · refine h.of_vote (fun r' b' hp => ?_) (fun r' b' hp => ?_) ?_ (fun _ => ?_) fun hown _ => ?_
    · rw [bvbVotes_broadcastValue, hvotes r' b' hp]
    · exact mem_broadcastValues_of_ne _ hb hp
    · exact binValues_broadcastValue _ _
    · exact mem_broadcastValues_self _ hb
    · rw [bvbVotes_broadcastValue]
      rcases hrelay hown hthird with hsent | hcounted
      · exact hold hown (hb ▸ hsent)
      · exact hcounted
  · exact h.of_vote hvotes (fun _ _ _ => Iff.rfl) rfl (fun hq => absurd hq hthird) hold

/-- What the circle of handlers asks of the way into the next round. -/
def KeepsSettled (c : Schain) (own : Prop) (E : Set (ℕ × Bool)) (next : Value → Handler Unit) :
    Prop :=
  ∀ b s, Settled c own E s → Settled c own E (finalState (next (Value.ofBool b)) s)

theorem binary_of_undecided {r : ℕ} {v : Value} (h : NextEstimate c s r v)
    (hd : s.inst.isDecided = false) : ∃ b, v = Value.ofBool b := by
  cases h with
  | coin random _ _ => exact ⟨_, rfl⟩
  | supported b _ => exact ⟨b, rfl⟩
  | decided hd' _ => exact absurd (hd'.symm.trans hd) (by decide)

theorem lottery_settled (hnext : KeepsSettled c own E next) (r : ℕ) (h : Settled c own E s) :
    Settled c own E (finalState (proceedWithDecisionLotteryIfAUXTwoThird c next r) s) := by
  cases proceedWithDecisionLotteryIfAUXTwoThird_cases c r s with
  | stay hrun => rwa [finalState_of_ok (hrun next)]
  | thrown e hrun => rwa [finalState_of_error (hrun next)]
  | decided random hd hrandom hsupport hrun =>
    rw [finalState_of_ok (hrun next)]
    exact h.of_eq rfl rfl rfl
  | entered random v hd hrandom hestimate hrun =>
    rw [finalState_congr (hrun next)]
    obtain ⟨b, rfl⟩ := binary_of_undecided hestimate hd
    exact hnext b _ (h.of_eq rfl rfl rfl)

theorem addToBinValues_settled (hnext : KeepsSettled c own E next) {m : Message}
    (hb : m.value = Value.ofBool b) (h : Settled c own (insert (m.r, b) E) s) :
    Settled c own E (finalState (addToBinValuesIfTwoThirds c next m) s) := by
  have hrun := addToBinValuesIfTwoThirds_run c next m s
  rw [hb] at hrun
  split_ifs at hrun with hmem hq hr
  · rw [finalState_of_ok hrun]
    exact h.of_insert fun _ _ => hmem
  · rw [finalState_congr hrun]
    exact lottery_settled hnext m.r h.addBinValue
  · rw [finalState_congr hrun]
    exact h.addBinValue
  · rw [finalState_of_ok hrun]
    refine h.of_insert fun _ hq' => absurd hq' ?_
    rwa [BinConsensusInstance.getBVBVoteCount, toBool_ofBool] at hq

theorem enterNextRound_settled (hnext : KeepsSettled c own E next) :
    KeepsSettled c own E (enterNextRound c next) := by
  intro b s h
  have hrun := enterNextRound_run c next (Value.ofBool b) s
  have hnew : Settled c own E (s.nextRound (Value.ofBool b)) := h.of_eq rfl rfl rfl
  have hentered : Settled c own (insert (s.inst.currentRound + 1, b) E)
      (s.entered c (Value.ofBool b)) :=
    hnew.sendAndCount (m := s.estimateMessage (Value.ofBool b)) rfl
  split_ifs at hrun with hround hq hknown
  · -- the node's own vote was reflected to it before: nothing new is counted
    rw [finalState_of_ok hrun]
    rw [toBool_ofBool, bvbVotes_broadcastValue] at hknown
    refine hentered.of_insert fun hE hq' => ?_
    have hvotes : (s.entered c (Value.ofBool b)).inst.bvbVotes b (s.inst.currentRound + 1) =
        s.inst.bvbVotes b (s.inst.currentRound + 1) := by
      unfold Exec.entered
      rw [bvbVotes_vote _ _ rfl, bvbVotes_broadcastValue]
      exact Finset.insert_eq_of_mem hknown
    rw [hvotes] at hq'
    have hbin : (s.entered c (Value.ofBool b)).inst.binValues = s.inst.binValues :=
      binValues_broadcastValue _ _
    rw [hbin]
    exact h.closed _ b hE hq'
  · rw [finalState_congr hrun]
    exact addToBinValues_settled hnext rfl hentered
  · rwa [finalState_of_error hrun]
  · rwa [finalState_of_error hrun]

theorem proceedWithNextRound_settled : KeepsSettled c own E (proceedWithNextRound c) := by
  have hfuel : ∀ fuel, KeepsSettled c own E (proceedWithNextRoundFuel c fuel) := by
    intro fuel
    induction fuel with
    | zero => exact fun b s h => h
    | succ fuel ih => exact enterNextRound_settled ih
  exact hfuel 100

/-! ### A decided instance follows without throwing -/

theorem Exec.isDecided_addBinValue (s : Exec) (c : Schain) (r : ℕ) (v : Value) :
    (s.addBinValue c r v).inst.isDecided = s.inst.isDecided := by
  unfold Exec.addBinValue
  split <;> rfl

theorem addToBinValues_ok_of_decided (m : Message) (hd : s.inst.isDecided = true) :
    ∃ s', (addToBinValuesIfTwoThirds c next m).run s = .ok () s' := by
  rw [addToBinValuesIfTwoThirds_run]
  split_ifs with hmem hq hr
  · exact ⟨_, rfl⟩
  · exact ⟨_, lottery_run_of_decided m.r ((s.isDecided_addBinValue c _ _).trans hd)⟩
  · exact ⟨_, rfl⟩
  · exact ⟨_, rfl⟩

theorem Exec.isDecided_entered (s : Exec) (c : Schain) (v : Value) :
    (s.entered c v).inst.isDecided = s.inst.isDecided := by
  show ((s.nextRound v).broadcastValue (s.estimateMessage v)).inst.isDecided = _
  unfold Exec.broadcastValue
  split <;> rfl

theorem proceedWithNextRound_ok_of_decided (v : Value) (hd : s.inst.isDecided = true)
    (hround : s.inst.currentRound < 100)
    (hq : isTwoThird c (s.inst.totalAUXVotes s.inst.currentRound) = true) :
    ∃ s', (proceedWithNextRound c v).run s = .ok () s' := by
  rw [proceedWithNextRound_eq, enterNextRound_run, if_pos hround, if_pos hq]
  split_ifs with hknown
  · exact ⟨_, rfl⟩
  · exact addToBinValues_ok_of_decided _ ((s.isDecided_entered c v).trans hd)

theorem ifAlreadyDecided_cases (r : ℕ) (s : Exec) :
    (∃ s', (ifAlreadyDecidedSendDelayedEstimateForNextRound c (proceedWithNextRound c) r).run s =
      .ok () s' ∧ (s' = s ∨ (s.inst.isDecided = true ∧
        s' = finalState (proceedWithNextRound c s.inst.decidedValue) s))) ∨
    (100 < r ∧ ∃ e,
      (ifAlreadyDecidedSendDelayedEstimateForNextRound c (proceedWithNextRound c) r).run s =
        .error e s) := by
  have hunfold :
      (ifAlreadyDecidedSendDelayedEstimateForNextRound c (proceedWithNextRound c) r).run s =
      (if s.inst.isDecided = true ∧ r = s.inst.currentRound + 1 ∧
          isTwoThird c (s.inst.totalAUXVotes s.inst.currentRound) = true then
        proceedWithNextRound c s.inst.decidedValue else pure () : Handler Unit).run s := rfl
  rw [hunfold]
  split_ifs with hcond
  · obtain ⟨hd, hr, hq⟩ := hcond
    by_cases hround : s.inst.currentRound < 100
    · obtain ⟨s', hrun⟩ := proceedWithNextRound_ok_of_decided s.inst.decidedValue hd hround hq
      exact .inl ⟨s', hrun, .inr ⟨hd, (finalState_of_ok hrun).symm⟩⟩
    · exact .inr ⟨by omega, _,
        proceedWithNextRoundFuel_run_of_hundred c 100 _ (Nat.le_of_not_lt hround)⟩
  · exact .inl ⟨s, rfl, .inl rfl⟩

/-! ### Every handler settles -/

/-- The rounds nobody enters. -/
def beyond : Set (ℕ × Bool) := {p | 100 < p.1}

theorem processBVB_settled (hbvb : me.message.msgType = .bvBroadcast)
    (hb : me.message.value = Value.ofBool b) (hrelay : own → RelaysOwn c s me)
    (hdecided : s.inst.isDecided = true → ∃ b, s.inst.decidedValue = Value.ofBool b)
    (h : Settled c own beyond s) :
    Settled c own beyond (finalState (processNetworkMessageImpl c me) s) := by
  have hrun := processBVB_run (c := c) s hbvb
  split_ifs at hrun with hr hknown
  · rw [finalState_of_ok hrun]
    exact h.vote_of_mem hknown
  · rw [finalState_congr hrun]
    have ht := h.voteAndRelay hb hrelay
    have hdecided' : ((s.vote me.message.r me.message.value me.srcSchainIndex).relayed c
        me.message).inst.isDecided = s.inst.isDecided ∧
        ((s.vote me.message.r me.message.value me.srcSchainIndex).relayed c
        me.message).inst.decidedValue = s.inst.decidedValue := by
      unfold Exec.relayed Exec.broadcastValue
      split_ifs <;> exact ⟨rfl, rfl⟩
    rw [← hdecided'.1, ← hdecided'.2] at hdecided
    generalize (s.vote me.message.r me.message.value me.srcSchainIndex).relayed c
      me.message = t at *
    rcases ifAlreadyDecided_cases (c := c) me.message.r t with ⟨s', hok, hs'⟩ | ⟨hhundred, e, herr⟩
    · rw [finalState_bind_of_ok hok]
      refine addToBinValues_settled proceedWithNextRound_settled hb ?_
      rcases hs' with rfl | ⟨hd, rfl⟩
      · exact ht
      · obtain ⟨b', hb'⟩ := hdecided hd
        rw [hb']
        exact proceedWithNextRound_settled b' t ht
    · rw [finalState_bind_of_error herr]
      rwa [Set.insert_eq_of_mem (show (me.message.r, b) ∈ beyond from hhundred)] at ht
  · rwa [finalState_of_error hrun]

theorem processAUX_settled (haux : me.message.msgType = .auxBroadcast)
    (h : Settled c own E s) : Settled c own E (finalState (processNetworkMessageImpl c me) s) := by
  have hrun := processAUX_run (c := c) s haux
  cases hshare : auxVoteShare c me.message with
  | error e =>
    rw [hshare] at hrun
    dsimp only at hrun
    split_ifs at hrun
    · rwa [finalState_of_error hrun]
    · rwa [finalState_of_error hrun]
  | ok share =>
    rw [hshare] at hrun
    split_ifs at hrun with hr hnew
    · rw [finalState_congr hrun]
      exact lottery_settled proceedWithNextRound_settled _ (h.of_eq rfl rfl rfl)
    · rw [finalState_of_ok hrun]
      exact h.of_eq rfl rfl rfl
    · rwa [finalState_of_error hrun]

theorem processParentProposal_settled (hown : OwnProposal c me s) (h : Settled c own E s) :
    Settled c own E (finalState (processParentProposal c me) s) := by
  have hrun : (processParentProposal c me).run s = _ := processParentProposal_run s
  split_ifs at hrun with hr
  · rw [finalState_congr hrun, hown.source]
    obtain ⟨b, hb⟩ := hown.binary
    have hproposed : Settled c own E (s.propose me.message.value) := h.of_eq rfl rfl rfl
    have hcounted := hproposed.sendAndCount hb
    refine addToBinValues_settled proceedWithNextRound_settled hb ?_
    rw [hr] at hcounted ⊢
    exact hcounted
  · rwa [finalState_of_error hrun]

end Handlers

end SkaleConsensus.BinConsensus
