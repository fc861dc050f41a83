import SkaleConsensus.BinConsensus.Effects

/-! The handlers, run.

Each handler that cannot fail is its effect on the execution; the others are
opened once, into what they leave and which handler they end in. From this,
`proceedWithNextRound_eq` gives the source's recursion back its own name, and
`processMessage_effects` shows that a message moves its instance by the steps of
`Effect` only. -/
namespace SkaleConsensus.BinConsensus
open Library Relation Exec BinConsensusInstance

/-! ### What each handler leaves -/

theorem bvbVote_run (r : ℕ) (v : Value) (i : SchainIndex) (s : Exec) :
    (bvbVote r v i).run s = .ok (decide (i ∉ s.inst.bvbVotes v.toBool r)) (s.vote r v i) := rfl

theorem networkBroadcastValue_run (m : Message) (s : Exec) :
    (networkBroadcastValue m).run s = .ok () (s.broadcastValue m) := by
  show (if m.value ∈ s.inst.broadcastValues m.r then (pure () : Handler Unit) else _).run s = _
  unfold broadcastValue
  by_cases h : m.value ∈ s.inst.broadcastValues m.r
  · rw [if_pos h, if_pos h]
    rfl
  · rw [if_neg h, if_neg h]
    rfl

theorem auxSelfVoteAndBroadcastValue_run (c : Schain) (r : ℕ) (v : Value) (s : Exec) :
    (auxSelfVoteAndBroadcastValue c r v).run s = .ok () (s.auxSelfVote c r v) := by
  have hshare : (decide (COMMON_COIN_ROUND ≤ r) == (s.coinShare c r).isSome) = true := by
    unfold coinShare
    by_cases h : COMMON_COIN_ROUND ≤ r <;> simp [h]
  have hvote : (auxVoteCore r v c.schainIndex (s.coinShare c r)).run s =
      .ok (decide (c.schainIndex ∉ (s.inst.auxVotes v.toBool r).keys))
        (s.auxVote r v c.schainIndex (s.coinShare c r)) := by
    show ((checkState _ _ : Handler Unit) >>= fun _ => _ : Handler Bool).run s = _
    rw [hshare]
    rfl
  show (auxVoteCore r v c.schainIndex (s.coinShare c r) >>= fun _ =>
    broadcastMessage (s.auxMessage c r v) : Handler Unit).run s = _
  rw [EStateM.run_bind, hvote]
  rfl

variable {s : Exec} {c : Schain}

theorem decideValue_run (hd : s.inst.isDecided = false) (b : Bool) :
    (decideValue (Value.ofBool b)).run s = .ok () (s.decided b) := by
  show ((checkState (!s.inst.isDecided) _ : Handler Unit) >>= fun _ => _ : Handler Unit).run s = _
  rw [hd]
  rfl

/-! ### The end of a round -/

theorem isTwoThird_zero (c : Schain) : isTwoThird c 0 = false := by
  simp [isTwoThird]

theorem hasValue_mem {s : BinConsensusInstance} {b : Bool} {r : ℕ}
    (h : s.hasValue b r = true) : Value.ofBool b ∈ s.binValues r := by
  simp only [BinConsensusInstance.hasValue, Bool.and_eq_true, decide_eq_true_eq] at h
  exact h.1

theorem supports_of_single {s : BinConsensusInstance} {r : ℕ} {b : Bool}
    (hb : s.hasValue b r = true) (hother : s.hasValue (!b) r = false)
    (hquorum : isTwoThird c (s.verifiedValuesSize r) = true) : Supports c s r b := by
  refine ⟨hasValue_mem hb, ?_⟩
  cases b
  · simpa [verifiedValuesSize, BinConsensusInstance.auxVotes, hb,
      show s.hasValue true r = false from hother] using hquorum
  · simpa [verifiedValuesSize, BinConsensusInstance.auxVotes, hb,
      show s.hasValue false r = false from hother] using hquorum

/-- What a lottery comes to, whatever the way `next` into the next round: nothing,
a failed check, a decision for the coin, or the next round for a reason. -/
inductive RoundEnd (c : Schain) (s : Exec)
    (lottery : (Value → Handler Unit) → EStateM.Result String Exec Unit) : Prop where
  | stay : (∀ next, lottery next = .ok () s) → RoundEnd c s lottery
  | thrown (e : String) : (∀ next, lottery next = .error e s) → RoundEnd c s lottery
  | decided (random : ℕ) : s.inst.isDecided = false →
      roundRandom c s.inst s.inst.currentRound = .ok random →
      Supports c s.inst s.inst.currentRound (commonCoinValue random) →
      (∀ next, lottery next =
        .ok () ((s.drawn s.inst.currentRound random).decided (commonCoinValue random))) →
      RoundEnd c s lottery
  | entered (random : ℕ) (v : Value) : s.inst.isDecided = false →
      roundRandom c s.inst s.inst.currentRound = .ok random →
      NextEstimate c (s.drawn s.inst.currentRound random) s.inst.currentRound v →
      (∀ next, lottery next = (next v).run (s.drawn s.inst.currentRound random)) →
      RoundEnd c s lottery

theorem playDecisionLottery_run (hd : s.inst.isDecided = false) (next : Value → Handler Unit)
    (hasTrue hasFalse : Bool) (random : ℕ) :
    (playDecisionLottery next hasTrue hasFalse random).run s =
      if hasTrue && hasFalse then (next (Value.ofBool (commonCoinValue random))).run s
      else if hasTrue == commonCoinValue random then .ok () (s.decided hasTrue)
      else (next (Value.ofBool hasTrue)).run s := by
  show ((checkState (!s.inst.isDecided) _ : Handler Unit) >>= fun _ => _ : Handler Unit).run s = _
  rw [EStateM.run_bind, checkState_run_of_true (by rw [hd]; rfl)]
  cases hboth : hasTrue && hasFalse with
  | true => rfl
  | false =>
    cases hcoin : hasTrue == commonCoinValue random with
    | true => exact decideValue_run hd hasTrue
    | false => rfl

theorem computeRandom_run (c : Schain) (r : ℕ) (s : Exec) :
    (computeRandom c r).run s =
      match roundRandom c s.inst r with
      | .error e => .error e s
      | .ok random => .ok random (s.drawn r random) := by
  show (match roundRandom c s.inst r with
    | .error e => (throw e : Handler ℕ)
    | .ok random => writeRandom r random >>= fun _ => pure random).run s = _
  cases roundRandom c s.inst r <;> rfl

theorem roundEnd_of_quorum {random : ℕ}
    {lottery : (Value → Handler Unit) → EStateM.Result String Exec Unit}
    (hd : s.inst.isDecided = false)
    (hq : isTwoThird c (s.inst.verifiedValuesSize s.inst.currentRound) = true)
    (hrandom : roundRandom c s.inst s.inst.currentRound = .ok random)
    (hrun : ∀ next, lottery next =
      (playDecisionLottery next (s.inst.hasValue true s.inst.currentRound)
        (s.inst.hasValue false s.inst.currentRound) random).run
        (s.drawn s.inst.currentRound random)) : RoundEnd c s lottery := by
  have hd' : (s.drawn s.inst.currentRound random).inst.isDecided = false := hd
  have hmem : (s.inst.currentRound, random) ∈ (s.drawn s.inst.currentRound random).randomDB :=
    List.mem_append_right _ (List.mem_singleton_self _)
  -- one value `b` only: decided if it is the coin, else it is the next estimate
  have hsingle : ∀ b, s.inst.hasValue b s.inst.currentRound = true →
      s.inst.hasValue (!b) s.inst.currentRound = false →
      (∀ next, lottery next = if b == commonCoinValue random then
        .ok () ((s.drawn s.inst.currentRound random).decided b)
        else (next (Value.ofBool b)).run (s.drawn s.inst.currentRound random)) →
      RoundEnd c s lottery := by
    intro b hb hother hlottery
    have hsupport : Supports c s.inst s.inst.currentRound b := supports_of_single hb hother hq
    by_cases hcoin : (b == commonCoinValue random) = true
    · have hb' : b = commonCoinValue random := by simpa using hcoin
      subst hb'
      exact .decided random hd hrandom hsupport fun next => by rw [hlottery, if_pos hcoin]
    · exact .entered random _ hd hrandom (.supported b hsupport)
        fun next => by rw [hlottery, if_neg hcoin]
  cases ht : s.inst.hasValue true s.inst.currentRound <;>
    cases hf : s.inst.hasValue false s.inst.currentRound
  · -- no value at all is no quorum
    simp [verifiedValuesSize, ht, hf, isTwoThird_zero] at hq
  · refine hsingle false hf ht fun next => ?_
    rw [hrun, playDecisionLottery_run hd', ht]
    rfl
  · refine hsingle true ht hf fun next => ?_
    rw [hrun, playDecisionLottery_run hd', ht, hf]
    rfl
  · refine .entered random _ hd hrandom (.coin random hmem fun b => ?_) fun next => ?_
    · cases b
      · exact hasValue_mem hf
      · exact hasValue_mem ht
    · rw [hrun, playDecisionLottery_run hd', ht, hf]
      rfl

theorem lottery_run_of_decided {next : Value → Handler Unit} (r : ℕ)
    (hd : s.inst.isDecided = true) :
    (proceedWithDecisionLotteryIfAUXTwoThird c next r).run s = .ok () s := by
  show (if s.inst.isDecided = true then (pure () : Handler Unit) else _).run s = _
  rw [if_pos hd]
  rfl

theorem proceedWithDecisionLotteryIfAUXTwoThird_cases (c : Schain) (r : ℕ) (s : Exec) :
    RoundEnd c s fun next => (proceedWithDecisionLotteryIfAUXTwoThird c next r).run s := by
  have hunfold : ∀ next, (proceedWithDecisionLotteryIfAUXTwoThird c next r).run s =
      (if s.inst.isDecided = true then (pure () : Handler Unit) else
        checkState (r == s.inst.currentRound) "_r == getCurrentRound()" >>= fun _ =>
        if isTwoThird c (s.inst.verifiedValuesSize r) = true then
          computeRandom c r >>= fun random =>
            playDecisionLottery next (s.inst.hasValue true r) (s.inst.hasValue false r) random
        else pure ()).run s := fun next => rfl
  cases hd : s.inst.isDecided with
  | true => exact .stay fun next => by rw [hunfold, hd]; rfl
  | false =>
    by_cases hr : r = s.inst.currentRound
    case neg =>
      refine .thrown ("State check failed::" ++ "_r == getCurrentRound()") fun next => ?_
      rw [hunfold, hd, if_neg (by decide), EStateM.run_bind,
        checkState_run_of_false (by simpa using hr)]
    subst hr
    have hcheck : ∀ next, (proceedWithDecisionLotteryIfAUXTwoThird c next s.inst.currentRound).run s
        = (if isTwoThird c (s.inst.verifiedValuesSize s.inst.currentRound) = true then
          computeRandom c s.inst.currentRound >>= fun random =>
            playDecisionLottery next (s.inst.hasValue true s.inst.currentRound)
              (s.inst.hasValue false s.inst.currentRound) random
        else pure ()).run s := by
      intro next
      rw [hunfold, hd, if_neg (by decide), EStateM.run_bind, checkState_run_of_true (by simp)]
    by_cases hq : isTwoThird c (s.inst.verifiedValuesSize s.inst.currentRound) = true
    case neg => exact .stay fun next => by rw [hcheck, if_neg hq]; rfl
    cases hrandom : roundRandom c s.inst s.inst.currentRound with
    | error e =>
      refine .thrown e fun next => ?_
      rw [hcheck, if_pos hq, EStateM.run_bind, computeRandom_run, hrandom]
    | ok random =>
      have hlottery : ∀ next,
          (proceedWithDecisionLotteryIfAUXTwoThird c next s.inst.currentRound).run s =
            (playDecisionLottery next (s.inst.hasValue true s.inst.currentRound)
              (s.inst.hasValue false s.inst.currentRound) random).run
              (s.drawn s.inst.currentRound random) := by
        intro next
        rw [hcheck, if_pos hq, EStateM.run_bind, computeRandom_run, hrandom]
      exact roundEnd_of_quorum hd hq hrandom hlottery

/-- A value with its quorum becomes binary before anything can throw. -/
theorem addToBinValuesIfTwoThirds_run (c : Schain) (next : Value → Handler Unit) (m : Message)
    (s : Exec) :
    (addToBinValuesIfTwoThirds c next m).run s =
      if m.value ∈ s.inst.binValues m.r then .ok () s
      else if isTwoThird c (s.inst.getBVBVoteCount m.value m.r) = true then
        (if m.r = s.inst.currentRound then proceedWithDecisionLotteryIfAUXTwoThird c next m.r
          else pure () : Handler Unit).run (s.addBinValue c m.r m.value)
      else .ok () s := by
  show (if m.value ∈ s.inst.binValues m.r then (pure () : Handler Unit) else _).run s = _
  by_cases hmem : m.value ∈ s.inst.binValues m.r
  · rw [if_pos hmem, if_pos hmem]
    rfl
  rw [if_neg hmem, if_neg hmem]
  by_cases hq : isTwoThird c (s.inst.getBVBVoteCount m.value m.r) = true
  · rw [if_pos hq, if_pos hq]
    show ((if 1 < ((s.binValue m.r m.value).inst.binValues m.r).card then
        (pure () : Handler Unit) else auxSelfVoteAndBroadcastValue c m.r m.value) >>=
      fun _ => _ : Handler Unit).run (s.binValue m.r m.value) = _
    have hcard : ((s.binValue m.r m.value).inst.binValues m.r).card =
        (s.inst.binValues m.r).card + 1 := by
      simp only [Exec.binValue, insertIntoBinValues, Function.update_self]
      exact Finset.card_insert_of_notMem hmem
    unfold addBinValue
    by_cases hfirst : s.inst.binValues m.r = ∅
    · rw [if_neg (by rw [hcard, hfirst]; simp), if_pos hfirst, EStateM.run_bind,
        auxSelfVoteAndBroadcastValue_run]
      rfl
    · have hpos := Finset.card_pos.mpr (Finset.nonempty_iff_ne_empty.mpr hfirst)
      rw [if_pos (by omega), if_neg hfirst]
      rfl
  · rw [if_neg hq, if_neg hq]
    rfl

/-! ### The circle closes -/

/-- The BVB message an instance enters its next round with. -/
def Exec.estimateMessage (s : Exec) (v : Value) : Message :=
  ⟨.bvBroadcast, s.inst.blockID, s.inst.blockProposerIndex, s.inst.currentRound + 1, v, none⟩

/-- Entering a round, up to the quorum check of its own value. -/
def Exec.entered (s : Exec) (c : Schain) (v : Value) : Exec :=
  ((s.nextRound v).broadcastValue (s.estimateMessage v)).vote (s.inst.currentRound + 1) v
    c.schainIndex

@[simp] theorem Exec.currentRound_broadcastValue (s : Exec) (m : Message) :
    (s.broadcastValue m).inst.currentRound = s.inst.currentRound := by
  unfold broadcastValue
  split <;> rfl

@[simp] theorem Exec.currentRound_addBinValue (s : Exec) (c : Schain) (r : ℕ) (v : Value) :
    (s.addBinValue c r v).inst.currentRound = s.inst.currentRound := by
  unfold addBinValue
  split <;> rfl

theorem Exec.currentRound_entered (s : Exec) (c : Schain) (v : Value) :
    (s.entered c v).inst.currentRound = s.inst.currentRound + 1 :=
  currentRound_broadcastValue (s.nextRound v) (s.estimateMessage v)

theorem enterNextRound_run (c : Schain) (next : Value → Handler Unit) (v : Value) (s : Exec) :
    (enterNextRound c next v).run s =
      if s.inst.currentRound < 100 then
        if isTwoThird c (s.inst.totalAUXVotes s.inst.currentRound) = true then
          if c.schainIndex ∉ ((s.nextRound v).broadcastValue (s.estimateMessage v)).inst.bvbVotes
              v.toBool (s.inst.currentRound + 1) then
            (addToBinValuesIfTwoThirds c next (s.estimateMessage v)).run (s.entered c v)
          else .ok () (s.entered c v)
        else .error ("State check failed::" ++ "isTwoThird( totalAUXVotes( getCurrentRound() ) )") s
      else .error "State check failed::getCurrentRound() < 100" s := by
  show ((checkState (decide (s.inst.currentRound < 100)) _ : Handler Unit) >>= fun _ =>
    checkState _ _ >>= fun _ => _ : Handler Unit).run s = _
  by_cases hlt : s.inst.currentRound < 100
  case neg =>
    rw [EStateM.run_bind, checkState_run_of_false (by simpa using hlt), if_neg hlt]
    rfl
  rw [EStateM.run_bind, checkState_run_of_true (by simpa using hlt), if_pos hlt]
  show (checkState (isTwoThird c (s.inst.totalAUXVotes s.inst.currentRound)) _ >>= fun _ =>
    _ : Handler Unit).run s = _
  cases hq : isTwoThird c (s.inst.totalAUXVotes s.inst.currentRound) with
  | false =>
    rw [EStateM.run_bind, checkState_run_of_false rfl]
    rfl
  | true =>
    rw [EStateM.run_bind, checkState_run_of_true rfl, if_pos rfl]
    show (networkBroadcastValue (s.estimateMessage v) >>= fun _ =>
      bvbVote (s.inst.currentRound + 1) v c.schainIndex >>= fun fresh =>
      if fresh = true then addToBinValuesIfTwoThirds c next (s.estimateMessage v)
      else pure () : Handler Unit).run (s.nextRound v) = _
    rw [EStateM.run_bind, networkBroadcastValue_run]
    show (bvbVote (s.inst.currentRound + 1) v c.schainIndex >>= fun fresh =>
      if fresh = true then addToBinValuesIfTwoThirds c next (s.estimateMessage v)
      else pure () : Handler Unit).run _ = _
    rw [EStateM.run_bind, bvbVote_run]
    by_cases hfresh : c.schainIndex ∉ ((s.nextRound v).broadcastValue
        (s.estimateMessage v)).inst.bvbVotes v.toBool (s.inst.currentRound + 1)
    · rw [if_pos hfresh, decide_eq_true hfresh]
      rfl
    · rw [if_neg hfresh, decide_eq_false hfresh]
      rfl

theorem addToBinValuesIfTwoThirds_congr {next next' : Value → Handler Unit} {m : Message}
    (h : ∀ v s', s'.inst.currentRound = s.inst.currentRound → (next v).run s' = (next' v).run s') :
    (addToBinValuesIfTwoThirds c next m).run s = (addToBinValuesIfTwoThirds c next' m).run s := by
  rw [addToBinValuesIfTwoThirds_run, addToBinValuesIfTwoThirds_run]
  by_cases hr : m.r = s.inst.currentRound
  · rw [if_pos hr, if_pos hr]
    have hsame : (proceedWithDecisionLotteryIfAUXTwoThird c next m.r).run
        (s.addBinValue c m.r m.value) =
        (proceedWithDecisionLotteryIfAUXTwoThird c next' m.r).run
        (s.addBinValue c m.r m.value) := by
      cases proceedWithDecisionLotteryIfAUXTwoThird_cases c m.r (s.addBinValue c m.r m.value) with
      | stay hrun => rw [hrun next, hrun next']
      | thrown e hrun => rw [hrun next, hrun next']
      | decided random _ _ _ hrun => rw [hrun next, hrun next']
      | entered random v _ _ _ hrun =>
        rw [hrun next, hrun next']
        exact h v _ (currentRound_addBinValue s c m.r m.value)
    rw [hsame]
  · rw [if_neg hr, if_neg hr]

/-- Out of fuel or not, the check on the round fails from round one hundred on. -/
theorem proceedWithNextRoundFuel_run_of_hundred (c : Schain) (fuel : ℕ) (v : Value)
    (h : 100 ≤ s.inst.currentRound) :
    (proceedWithNextRoundFuel c fuel v).run s =
      .error "State check failed::getCurrentRound() < 100" s := by
  cases fuel with
  | zero => rfl
  | succ fuel =>
    show (enterNextRound c (proceedWithNextRoundFuel c fuel) v).run s = _
    rw [enterNextRound_run, if_neg (Nat.not_lt.mpr h)]

/-- Fuel for the rounds below one hundred is fuel enough. -/
theorem proceedWithNextRoundFuel_eq (c : Schain) (fuel fuel' : ℕ) (v : Value) (s : Exec)
    (h : 100 ≤ fuel + s.inst.currentRound) (h' : 100 ≤ fuel' + s.inst.currentRound) :
    (proceedWithNextRoundFuel c fuel v).run s = (proceedWithNextRoundFuel c fuel' v).run s := by
  induction fuel generalizing fuel' v s with
  | zero =>
    have hround : 100 ≤ s.inst.currentRound := by omega
    rw [proceedWithNextRoundFuel_run_of_hundred c 0 v hround,
      proceedWithNextRoundFuel_run_of_hundred c fuel' v hround]
  | succ fuel ih =>
    cases fuel' with
    | zero =>
      have hround : 100 ≤ s.inst.currentRound := by omega
      rw [proceedWithNextRoundFuel_run_of_hundred c 0 v hround,
        proceedWithNextRoundFuel_run_of_hundred c (fuel + 1) v hround]
    | succ fuel' =>
      have hnext : ∀ v' s', s'.inst.currentRound = (s.entered c v).inst.currentRound →
          (proceedWithNextRoundFuel c fuel v').run s' =
            (proceedWithNextRoundFuel c fuel' v').run s' := by
        intro v' s' hs'
        have hround := hs'.trans (currentRound_entered s c v)
        exact ih fuel' v' s' (by omega) (by omega)
      show (enterNextRound c (proceedWithNextRoundFuel c fuel) v).run s =
        (enterNextRound c (proceedWithNextRoundFuel c fuel') v).run s
      rw [enterNextRound_run, enterNextRound_run, addToBinValuesIfTwoThirds_congr hnext]

/-- `proceedWithNextRound` is the recursive function of the source. -/
theorem proceedWithNextRound_eq (c : Schain) (v : Value) :
    proceedWithNextRound c v = enterNextRound c (proceedWithNextRound c) v := by
  funext s
  show (enterNextRound c (proceedWithNextRoundFuel c 99) v).run s =
    (enterNextRound c (proceedWithNextRound c) v).run s
  rw [enterNextRound_run, enterNextRound_run, addToBinValuesIfTwoThirds_congr]
  intro v' s' hs'
  have hround := hs'.trans (currentRound_entered s c v)
  exact proceedWithNextRoundFuel_eq c 99 100 v' s' (by omega) (by omega)

/-! ### Every handler moves by steps -/

section Handlers
variable {c : Schain} {me : MessageEnvelope} {next : Value → Handler Unit} {s : Exec} {m : Message}

/-- What the circle of handlers asks of the way into the next round. -/
def Enters (c : Schain) (me : MessageEnvelope) (next : Value → Handler Unit) : Prop :=
  ∀ s v, NextEstimate c s s.inst.currentRound v → Effects c me s (finalState (next v) s)

theorem proceedWithDecisionLotteryIfAUXTwoThird_effects (hnext : Enters c me next) (r : ℕ)
    (s : Exec) :
    Effects c me s (finalState (proceedWithDecisionLotteryIfAUXTwoThird c next r) s) := by
  cases proceedWithDecisionLotteryIfAUXTwoThird_cases c r s with
  | stay hrun =>
    rw [finalState_of_ok (hrun next)]
  | thrown e hrun =>
    rw [finalState_of_error (hrun next)]
  | decided random hd hrandom hsupport hrun =>
    rw [finalState_of_ok (hrun next)]
    have hmem : (s.inst.currentRound, random) ∈ (s.drawn s.inst.currentRound random).randomDB :=
      List.mem_append_right _ (List.mem_singleton_self _)
    exact .tail (.single (.draw s random hrandom)) (.decide _ random hd hmem hsupport)
  | entered random v hd hrandom hestimate hrun =>
    rw [finalState_congr (hrun next)]
    exact .head (.draw s random hrandom) (hnext _ v hestimate)

theorem addBinValue_effect {r : ℕ} {v : Value} (hnamed : Named me s r v)
    (h : isTwoThird c (s.inst.getBVBVoteCount v r) = true) :
    Effect c me s (s.addBinValue c r v) := by
  unfold addBinValue
  by_cases hfirst : s.inst.binValues r = ∅
  · rw [if_pos hfirst]
    exact .firstBinValue s r v hnamed hfirst h
  · rw [if_neg hfirst]
    exact .binValue s r v hnamed hfirst h

theorem addToBinValuesIfTwoThirds_effects (hnext : Enters c me next)
    (hnamed : Named me s m.r m.value) :
    Effects c me s (finalState (addToBinValuesIfTwoThirds c next m) s) := by
  have hrun := addToBinValuesIfTwoThirds_run c next m s
  split_ifs at hrun with hmem hq hr
  · rw [finalState_of_ok hrun]
  · rw [finalState_congr hrun]
    exact .head (addBinValue_effect hnamed hq)
      (proceedWithDecisionLotteryIfAUXTwoThird_effects hnext m.r _)
  · rw [finalState_congr hrun]
    exact .single (addBinValue_effect hnamed hq)
  · rw [finalState_of_ok hrun]

theorem broadcastValue_effects (hkey : m.key = s.inst.key)
    (h : s.inst.proposals m.r = some m.value ∨
      (me.message.msgType = .bvBroadcast ∧ m = me.message ∧
        isThird c (s.inst.getBVBVoteCount m.value m.r) = true)) :
    Effects c me s (s.broadcastValue m) := by
  unfold broadcastValue
  split_ifs with hsent
  · exact .refl
  · exact .single (.sendValue s m hkey hsent h)

theorem Exec.proposals_broadcastValue (s : Exec) (m : Message) :
    (s.broadcastValue m).inst.proposals = s.inst.proposals := by
  unfold broadcastValue
  split <;> rfl

theorem Exec.proposals_entered (s : Exec) (c : Schain) (v : Value) :
    (s.entered c v).inst.proposals (s.inst.currentRound + 1) = some v := by
  have hproposals : (s.entered c v).inst.proposals = (s.nextRound v).inst.proposals :=
    proposals_broadcastValue (s.nextRound v) (s.estimateMessage v)
  rw [hproposals]
  exact Function.update_self ..

theorem entered_effects {v : Value} (hround : s.inst.currentRound < 100)
    (h : NextEstimate c s s.inst.currentRound v) : Effects c me s (s.entered c v) := by
  have hproposed : (s.nextRound v).inst.proposals (s.inst.currentRound + 1) = some v :=
    Function.update_self ..
  have hsend :
      Effects c me (s.nextRound v) ((s.nextRound v).broadcastValue (s.estimateMessage v)) :=
    broadcastValue_effects rfl (.inl hproposed)
  refine .head (.nextRound s v hround h) (.tail hsend ?_)
  exact .selfVote _ _ v (by rw [proposals_broadcastValue, hproposed])

theorem enterNextRound_effects (hnext : Enters c me next) :
    Enters c me (enterNextRound c next) := by
  intro s v hestimate
  have hrun := enterNextRound_run c next v s
  split_ifs at hrun with hround hq hknown
  · rw [finalState_of_ok hrun]
    exact entered_effects hround hestimate
  · rw [finalState_congr hrun]
    exact (entered_effects hround hestimate).trans
      (addToBinValuesIfTwoThirds_effects hnext (.inl (proposals_entered s c v)))
  · rw [finalState_of_error hrun]
  · rw [finalState_of_error hrun]

theorem proceedWithNextRound_effects : Enters c me (proceedWithNextRound c) := by
  have hfuel : ∀ fuel, Enters c me (proceedWithNextRoundFuel c fuel) := by
    intro fuel
    induction fuel with
    | zero => exact fun s v _ => .refl
    | succ fuel ih => exact enterNextRound_effects ih
  exact hfuel 100

def Exec.relayed (s : Exec) (c : Schain) (m : Message) : Exec :=
  if isThird c (s.inst.getBVBVoteCount m.value m.r) = true then s.broadcastValue m else s

theorem networkBroadcastValueIfThird_run (m : Message) (s : Exec) :
    (networkBroadcastValueIfThird c m).run s = .ok () (s.relayed c m) := by
  show (if isThird c (s.inst.getBVBVoteCount m.value m.r) = true then networkBroadcastValue m
    else (pure () : Handler Unit)).run s = _
  unfold Exec.relayed
  split
  · exact networkBroadcastValue_run m s
  · rfl

/-- A decision is never of a later round. -/
def DecidedInTime (s : Exec) : Prop :=
  s.inst.isDecided = true → s.inst.decidedRound ≤ s.inst.currentRound

theorem ifAlreadyDecidedSendDelayedEstimateForNextRound_effects (hnext : Enters c me next) (r : ℕ)
    (hs : DecidedInTime s) :
    Effects c me s (finalState (ifAlreadyDecidedSendDelayedEstimateForNextRound c next r) s) := by
  show Effects c me s (finalState (if s.inst.isDecided = true ∧ _ then _ else pure ()) s)
  split_ifs with hcond
  · exact hnext s _ (.decided hcond.1 (hs hcond.1))
  · exact .refl

theorem processBVB_run (s : Exec) (hbvb : me.message.msgType = .bvBroadcast) :
    (processNetworkMessageImpl c me).run s =
      if me.message.r ≤ s.inst.currentRound + 1 then
        if me.srcSchainIndex ∈ s.inst.bvbVotes me.message.value.toBool me.message.r then
          .ok () (s.vote me.message.r me.message.value me.srcSchainIndex)
        else
          (ifAlreadyDecidedSendDelayedEstimateForNextRound c (proceedWithNextRound c) me.message.r
            >>= fun _ => addToBinValuesIfTwoThirds c (proceedWithNextRound c) me.message).run
            ((s.vote me.message.r me.message.value me.srcSchainIndex).relayed c me.message)
      else .error ("State check failed::" ++ "round <= getCurrentRound() + 1") s := by
  unfold processNetworkMessageImpl
  rw [run_get_bind]
  dsimp only
  rw [hbvb]
  by_cases hr : me.message.r ≤ s.inst.currentRound + 1
  case neg =>
    rw [EStateM.run_bind, checkState_run_of_false (by simpa using hr), if_neg hr]
  rw [EStateM.run_bind, checkState_run_of_true (by simpa using hr), if_pos hr]
  show (bvbVote me.message.r me.message.value me.srcSchainIndex >>= fun fresh =>
    if fresh = true then networkBroadcastValueIfThird c me.message >>= fun _ => _
    else pure () : Handler Unit).run s = _
  rw [EStateM.run_bind, bvbVote_run]
  by_cases hknown : me.srcSchainIndex ∈ s.inst.bvbVotes me.message.value.toBool me.message.r
  · rw [if_pos hknown, decide_eq_false (not_not.mpr hknown)]
    rfl
  · rw [if_neg hknown, decide_eq_true hknown]
    show (networkBroadcastValueIfThird c me.message >>= fun _ => _ : Handler Unit).run _ = _
    rw [EStateM.run_bind, networkBroadcastValueIfThird_run]

/-- A checked share is there exactly when the round wants one. -/
theorem isSome_of_auxVoteShare {share : Option SigShare} (h : auxVoteShare c m = .ok share) :
    (decide (COMMON_COIN_ROUND ≤ m.r) == share.isSome) = true := by
  unfold auxVoteShare at h
  split_ifs at h with hr
  · cases hs : m.sigShare with
    | none =>
      rw [hs] at h
      cases h
    | some given =>
      rw [hs] at h
      dsimp only at h
      split_ifs at h
      cases h
      simp [hr]
  · cases h
    simp [hr]

theorem auxVote_run (m : Message) (i : SchainIndex) (s : Exec) :
    (auxVote c m i).run s =
      match auxVoteShare c m with
      | .error e => .error e s
      | .ok share => .ok (decide (i ∉ (s.inst.auxVotes m.value.toBool m.r).keys))
          (s.auxVote m.r m.value i share) := by
  unfold auxVote
  cases hshare : auxVoteShare c m with
  | error e => rfl
  | ok share =>
    show ((checkState _ _ : Handler Unit) >>= fun _ => _ : Handler Bool).run s = _
    rw [isSome_of_auxVoteShare hshare]
    rfl

theorem processAUX_run (s : Exec) (haux : me.message.msgType = .auxBroadcast) :
    (processNetworkMessageImpl c me).run s =
      if me.message.r ≤ s.inst.currentRound + 1 then
        match auxVoteShare c me.message with
        | .error e => .error e s
        | .ok share =>
          if me.srcSchainIndex ∉ (s.inst.auxVotes me.message.value.toBool me.message.r).keys ∧
              me.message.r = s.inst.currentRound then
            (proceedWithDecisionLotteryIfAUXTwoThird c (proceedWithNextRound c) me.message.r).run
              (s.auxVote me.message.r me.message.value me.srcSchainIndex share)
          else .ok () (s.auxVote me.message.r me.message.value me.srcSchainIndex share)
      else .error ("State check failed::" ++ "round <= getCurrentRound() + 1") s := by
  unfold processNetworkMessageImpl
  rw [run_get_bind]
  dsimp only
  rw [haux]
  by_cases hr : me.message.r ≤ s.inst.currentRound + 1
  case neg =>
    rw [EStateM.run_bind, checkState_run_of_false (by simpa using hr), if_neg hr]
  rw [EStateM.run_bind, checkState_run_of_true (by simpa using hr), if_pos hr]
  show (auxVote c me.message me.srcSchainIndex >>= fun fresh => _ : Handler Unit).run s = _
  rw [EStateM.run_bind, auxVote_run]
  cases hshare : auxVoteShare c me.message with
  | error e => rfl
  | ok share =>
    dsimp only
    by_cases hknown :
        me.srcSchainIndex ∉ (s.inst.auxVotes me.message.value.toBool me.message.r).keys
    · rw [decide_eq_true hknown]
      show (if me.message.r = s.inst.currentRound then _ else pure () : Handler Unit).run _ = _
      by_cases hnow : me.message.r = s.inst.currentRound
      · rw [if_pos hnow, if_pos ⟨hknown, hnow⟩]
      · rw [if_neg hnow, if_neg fun h => hnow h.2]
        rfl
    · have hskip : ¬ (me.srcSchainIndex ∉
          (s.inst.auxVotes me.message.value.toBool me.message.r).keys ∧
          me.message.r = s.inst.currentRound) := fun h => hknown h.1
      rw [decide_eq_false hknown, if_neg hskip]
      rfl

theorem processParentProposal_run (s : Exec) :
    (processParentProposal c me).run s =
      if me.message.r = 0 then
        (addToBinValuesIfTwoThirds c (proceedWithNextRound c) me.message).run
          (((s.propose me.message.value).broadcastValue me.message).vote 0 me.message.value
            me.srcSchainIndex)
      else .error ("State check failed::" ++ "m->getRound() == 0") s := by
  show (checkState (me.message.r == 0) _ >>= fun _ => _ : Handler Unit).run s = _
  by_cases hr : me.message.r = 0
  case neg =>
    rw [EStateM.run_bind, checkState_run_of_false (by simpa using hr), if_neg hr]
  rw [EStateM.run_bind, checkState_run_of_true (by simpa using hr), if_pos hr]
  show (networkBroadcastValue me.message >>= fun _ =>
    bvbVote me.message.r me.message.value me.srcSchainIndex >>= fun _ =>
    addToBinValuesIfTwoThirds c (proceedWithNextRound c) me.message : Handler Unit).run
    {s with inst := s.inst.setProposal me.message.r me.message.value} = _
  rw [hr, EStateM.run_bind, networkBroadcastValue_run]
  rfl

theorem processMessage_run (hkey : me.message.key = s.inst.key) :
    (processMessage c me).run s =
      (match me.origin with
      | .network => processNetworkMessageImpl c me
      | .parent => processParentProposal c me).run s := by
  obtain ⟨hblock, hproposer⟩ := ProtocolKey.mk.inj hkey
  have hblock' : (me.message.blockID == s.inst.blockID) = true := by simpa using hblock
  have hproposer' : (me.message.blockProposerIndex == s.inst.blockProposerIndex) = true := by
    simpa using hproposer
  exact (run_checkState_bind_of_true hblock' _ _ s).trans
    (run_checkState_bind_of_true hproposer' _ _ s)

theorem relayed_effects (htype : me.message.msgType = .bvBroadcast)
    (hkey : me.message.key = s.inst.key) :
    Effects c me s (s.relayed c me.message) := by
  unfold Exec.relayed
  split_ifs with hthird
  · exact broadcastValue_effects hkey (.inr ⟨htype, rfl, hthird⟩)
  · exact .refl

theorem DecidedInTime.relayed (hs : DecidedInTime s) (m : Message) :
    DecidedInTime (s.relayed c m) := by
  unfold Exec.relayed broadcastValue
  split_ifs
  · exact hs
  · exact hs
  · exact hs

theorem processBVB_effects_of_vote (htype : me.message.msgType = .bvBroadcast)
    (hkey : me.message.key = s.inst.key) (hs : DecidedInTime s)
    (hr : me.message.r ≤ s.inst.currentRound + 1) :
    Effects c me (s.vote me.message.r me.message.value me.srcSchainIndex)
      (finalState (processNetworkMessageImpl c me) s) := by
  have hrun := processBVB_run (c := c) s htype
  rw [if_pos hr] at hrun
  have hs' : DecidedInTime (s.vote me.message.r me.message.value me.srcSchainIndex) := hs
  have hkey' : me.message.key =
    (s.vote me.message.r me.message.value me.srcSchainIndex).inst.key := hkey
  generalize s.vote me.message.r me.message.value me.srcSchainIndex = t at *
  split_ifs at hrun with hknown
  · rw [finalState_of_ok hrun]
  · rw [finalState_congr hrun]
    refine (relayed_effects htype hkey').trans (finalState_bind_rel ReflTransGen.trans ?_ ?_)
    · exact ifAlreadyDecidedSendDelayedEstimateForNextRound_effects proceedWithNextRound_effects _
        (hs'.relayed me.message)
    · exact fun _ s' _ => addToBinValuesIfTwoThirds_effects proceedWithNextRound_effects
        (.inr ⟨htype, rfl, rfl⟩)

theorem processBVB_effects (hnet : me.origin = .network) (htype : me.message.msgType = .bvBroadcast)
    (hkey : me.message.key = s.inst.key) (hs : DecidedInTime s) :
    Effects c me s (finalState (processNetworkMessageImpl c me) s) := by
  by_cases hr : me.message.r ≤ s.inst.currentRound + 1
  · exact .head (.vote s hnet htype) (processBVB_effects_of_vote htype hkey hs hr)
  · have hrun := processBVB_run (c := c) s htype
    rw [if_neg hr] at hrun
    rw [finalState_of_error hrun]

theorem processAUX_effects (hnet : me.origin = .network)
    (htype : me.message.msgType = .auxBroadcast) :
    Effects c me s (finalState (processNetworkMessageImpl c me) s) := by
  have hrun := processAUX_run (c := c) s htype
  cases hshare : auxVoteShare c me.message with
  | error e =>
    rw [hshare] at hrun
    dsimp only at hrun
    split_ifs at hrun
    · rw [finalState_of_error hrun]
    · rw [finalState_of_error hrun]
  | ok share =>
    rw [hshare] at hrun
    have hvote := Effect.auxVote s share hnet htype hshare
    split_ifs at hrun with hr hnew
    · rw [finalState_congr hrun]
      exact .head hvote
        (proceedWithDecisionLotteryIfAUXTwoThird_effects proceedWithNextRound_effects _ _)
    · rw [finalState_of_ok hrun]
      exact .single hvote
    · rw [finalState_of_error hrun]

/-- A proposal of the node itself, as its parent sends it. -/
structure OwnProposal (c : Schain) (me : MessageEnvelope) (s : Exec) : Prop where
  source : me.srcSchainIndex = c.schainIndex
  binary : ∃ b, me.message.value = Value.ofBool b
  /-- What was proposed once is not taken back. -/
  kept : s.inst.proposals 0 = none ∨ s.inst.proposals 0 = some me.message.value

theorem processParentProposal_effects (hparent : me.origin = .parent)
    (hkey : me.message.key = s.inst.key) (hown : OwnProposal c me s) :
    Effects c me s (finalState (processParentProposal c me) s) := by
  have hrun : (processParentProposal c me).run s = _ := processParentProposal_run s
  split_ifs at hrun with hr
  · rw [finalState_congr hrun]
    obtain ⟨b, hb⟩ := hown.binary
    have hkept := hown.kept
    rw [hb] at hkept
    have hpropose : Effect c me s (s.propose me.message.value) := by
      rw [hb]
      exact .propose s b hparent hb hkept
    have hproposed : (s.propose me.message.value).inst.proposals 0 = some me.message.value := by
      simp [Exec.propose, setProposal]
    have hsend : Effects c me (s.propose me.message.value)
        ((s.propose me.message.value).broadcastValue me.message) :=
      broadcastValue_effects hkey (.inl (by rw [hr]; exact hproposed))
    have hvote : Effect c me _
        (((s.propose me.message.value).broadcastValue me.message).vote 0 me.message.value
          c.schainIndex) :=
      .selfVote _ 0 me.message.value (by rw [proposals_broadcastValue, hproposed])
    rw [← hown.source] at hvote
    have hnamed : (((s.propose me.message.value).broadcastValue me.message).vote 0 me.message.value
        me.srcSchainIndex).inst.proposals me.message.r = some me.message.value := by
      rw [hr]
      exact (congrFun (proposals_broadcastValue _ _) 0).trans hproposed
    exact .head hpropose (hsend.trans (.head hvote
      (addToBinValuesIfTwoThirds_effects proceedWithNextRound_effects (.inl hnamed))))
  · rw [finalState_of_error hrun]

/-- Whatever the message and wherever a check throws, an instance moves by steps. -/
theorem processMessage_effects (hkey : me.message.key = s.inst.key) (hs : DecidedInTime s)
    (hown : me.origin = .parent → OwnProposal c me s) :
    Effects c me s (finalState (processMessage c me) s) := by
  rw [finalState_congr (processMessage_run hkey)]
  cases horigin : me.origin with
  | network =>
    cases htype : me.message.msgType with
    | bvBroadcast => exact processBVB_effects horigin htype hkey hs
    | auxBroadcast => exact processAUX_effects horigin htype
  | parent => exact processParentProposal_effects horigin hkey (hown horigin)

end Handlers

end SkaleConsensus.BinConsensus
