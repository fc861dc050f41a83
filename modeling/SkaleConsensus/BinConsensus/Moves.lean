import SkaleConsensus.BinConsensus.Coin
import SkaleConsensus.BinConsensus.Handlers
import SkaleConsensus.BinConsensus.Invariants

/-! One instance and any envelopes.

`Effect` says why an instance of a correct node does what it does. Here nothing is
asked of the envelopes, the node's own proposals included: an instance is handed
them one after the other, and `Move` says only what it does then. A round is
entered from the one before it; a value is sent as AUX when it is the first of its
round, and as BVB when it is not remembered as sent; a decision is taken once, and
followed into every later round.

Four of the checks of the handlers guard this order. A handler that has come to one
of them has made sure of it before (`Sound`), so that none of them ever throws. -/
namespace SkaleConsensus.BinConsensus
open Library Relation

/-! ### The moves -/

/-- One assignment of an instance of node `c` that processes `me`, with what is sent next to
it; `V` are the values that may become binary or be sent. -/
inductive Move (c : Schain) (me : MessageEnvelope) (V : Value → Prop) : Exec → Exec → Prop where
  | vote (s : Exec) (r : ℕ) (v : Value) (i : SchainIndex) :
      i = c.schainIndex ∨ i = me.srcSchainIndex → Move c me V s (s.vote r v i)
  | auxVote (s : Exec) (share : Option SigShare) : auxVoteShare c me.message = .ok share →
      Move c me V s (s.auxVote me.message.r me.message.value me.srcSchainIndex share)
  | sendValue (s : Exec) (m : Message) : V m.value → m.value ∉ s.inst.broadcastValues m.r →
      Move c me V s (s.sendValue m)
  | firstBinValue (s : Exec) (r : ℕ) (v : Value) : V v → s.inst.binValues r = ∅ →
      Move c me V s ((s.binValue r v).auxSelfVote c r v)
  | binValue (s : Exec) (r : ℕ) (v : Value) : V v → s.inst.binValues r ≠ ∅ →
      Move c me V s (s.binValue r v)
  | draw (s : Exec) (r random : ℕ) : Move c me V s (s.drawn r random)
  | decide (s : Exec) (b : Bool) : s.inst.isDecided = false → Move c me V s (s.decided b)
  | nextRound (s : Exec) (v : Value) : (s.inst.isDecided = true → v = s.inst.decidedValue) →
      Move c me V s (s.nextRound v)
  | propose (s : Exec) (v : Value) : Move c me V s (s.propose v)

abbrev Moves (c : Schain) (me : MessageEnvelope) (V : Value → Prop) : Exec → Exec → Prop :=
  ReflTransGen (Move c me V)

/-- The values an instance works with: zero, one, and whatever the message brings. -/
def Meant (me : MessageEnvelope) (v : Value) : Prop := v.IsBinary ∨ v = me.message.value

/-- The checks `_r == getCurrentRound()` of the lottery, `!isDecided` of the lottery and of
the decision, and that of the AUX quorum on the way into the next round. -/
def orderChecks : List String :=
  ["State check failed::_r == getCurrentRound()", "State check failed::!isDecided",
    "State check failed::isTwoThird( totalAUXVotes( getCurrentRound() ) )"]

/-- A handler moved from `s` to where it returned or threw, and what it threw is none of
these checks. -/
def Sound {α : Type} (c : Schain) (me : MessageEnvelope) (V : Value → Prop) (s : Exec) :
    EStateM.Result String Exec α → Prop
  | .ok _ s' => Moves c me V s s'
  | .error e s' => Moves c me V s s' ∧ e ∉ orderChecks

section Sound
variable {α β : Type} {c : Schain} {me : MessageEnvelope} {V : Value → Prop} {s t : Exec}

theorem Sound.after {result : EStateM.Result String Exec α} (h : Moves c me V s t)
    (hresult : Sound c me V t result) : Sound c me V s result := by
  cases result with
  | ok a s' => exact h.trans hresult
  | error e s' => exact ⟨h.trans hresult.1, hresult.2⟩

theorem Sound.bind {x : Handler α} {f : α → Handler β} (hx : Sound c me V s (x.run s))
    (hf : ∀ a s', x.run s = .ok a s' → Sound c me V s' ((f a).run s')) :
    Sound c me V s ((x >>= f).run s) := by
  rw [EStateM.run_bind]
  cases hrun : x.run s with
  | ok a s' =>
    rw [hrun] at hx
    exact .after hx (hf a s' hrun)
  | error e s' =>
    rw [hrun] at hx
    exact hx

theorem Sound.moves {x : Handler α} (h : Sound c me V s (x.run s)) :
    Moves c me V s (finalState x s) := by
  cases hrun : x.run s with
  | ok a s' =>
    rw [finalState_of_ok hrun]
    rwa [hrun] at h
  | error e s' =>
    rw [finalState_of_error hrun]
    rw [hrun] at h
    exact h.1

end Sound

/-! ### The handlers -/

section Handlers
variable {c : Schain} {me : MessageEnvelope} {V : Value → Prop} {next : Value → Handler Unit}
  {s : Exec} {m : Message}

/-- What the circle of handlers makes sure of before the next round. -/
structure MayEnter (c : Schain) (s : Exec) (v : Value) : Prop where
  binary : v.IsBinary
  decided : s.inst.isDecided = true → v = s.inst.decidedValue
  quorum : isTwoThird c (s.inst.totalAUXVotes s.inst.currentRound) = true

def EntersSoundly (c : Schain) (me : MessageEnvelope) (V : Value → Prop)
    (next : Value → Handler Unit) : Prop :=
  ∀ s v, MayEnter c s v → Sound c me V s ((next v).run s)

theorem verifiedValuesSize_le (s : BinConsensusInstance) (r : ℕ) :
    s.verifiedValuesSize r ≤ s.totalAUXVotes r := by
  unfold BinConsensusInstance.verifiedValuesSize BinConsensusInstance.totalAUXVotes
  split_ifs <;> omega

theorem lottery_run (next : Value → Handler Unit) (hd : s.inst.isDecided = false) :
    (proceedWithDecisionLotteryIfAUXTwoThird c next s.inst.currentRound).run s =
      if isTwoThird c (s.inst.verifiedValuesSize s.inst.currentRound) = true then
        match roundRandom c s.inst s.inst.currentRound with
        | .error e => .error e s
        | .ok random =>
          (playDecisionLottery next (s.inst.hasValue true s.inst.currentRound)
            (s.inst.hasValue false s.inst.currentRound) random).run
            (s.drawn s.inst.currentRound random)
      else .ok () s := by
  show (if s.inst.isDecided = true then (pure () : Handler Unit) else
    checkState (s.inst.currentRound == s.inst.currentRound) _ >>= fun _ => _).run s = _
  rw [hd, if_neg (by decide), run_checkState_bind_of_true (beq_self_eq_true _)]
  show (if isTwoThird c (s.inst.verifiedValuesSize s.inst.currentRound) = true then
    computeRandom c s.inst.currentRound >>= fun random =>
      playDecisionLottery next (s.inst.hasValue true s.inst.currentRound)
        (s.inst.hasValue false s.inst.currentRound) random
    else (pure () : Handler Unit)).run s = _
  split_ifs with hquorum
  · rw [EStateM.run_bind, computeRandom_run]
    cases roundRandom c s.inst s.inst.currentRound <;> rfl
  · rfl

theorem lottery_sound (hnext : EntersSoundly c me V next) {r : ℕ} (hr : r = s.inst.currentRound) :
    Sound c me V s ((proceedWithDecisionLotteryIfAUXTwoThird c next r).run s) := by
  subst hr
  cases hd : s.inst.isDecided with
  | true =>
    rw [lottery_run_of_decided _ hd]
    exact .refl
  | false =>
    rw [lottery_run next hd]
    split_ifs with hquorum
    · cases hrandom : roundRandom c s.inst s.inst.currentRound with
      | error e =>
        refine ⟨.refl, ?_⟩
        rcases roundRandom_error hrandom with rfl | rfl <;> decide
      | ok random =>
        have hdrawn : Moves c me V s (s.drawn s.inst.currentRound random) :=
          .single (.draw s s.inst.currentRound random)
        have henter : ∀ b, MayEnter c (s.drawn s.inst.currentRound random) (Value.ofBool b) :=
          fun b => ⟨Value.isBinary_ofBool b, fun hd' => absurd (hd'.symm.trans hd) (by decide),
            isTwoThird_mono (verifiedValuesSize_le s.inst s.inst.currentRound) hquorum⟩
        have hd' : (s.drawn s.inst.currentRound random).inst.isDecided = false := hd
        dsimp only
        rw [playDecisionLottery_run hd']
        split_ifs with hboth hcoin
        · exact .after hdrawn (hnext _ _ (henter _))
        · exact hdrawn.tail (.decide _ _ hd')
        · exact .after hdrawn (hnext _ _ (henter _))
    · exact .refl

theorem addBinValue_move {r : ℕ} {v : Value} (hv : V v) : Move c me V s (s.addBinValue c r v) := by
  unfold Exec.addBinValue
  split_ifs with hfirst
  · exact .firstBinValue s r v hv hfirst
  · exact .binValue s r v hv hfirst

theorem addToBinValues_sound (hnext : EntersSoundly c me V next) (hm : V m.value) :
    Sound c me V s ((addToBinValuesIfTwoThirds c next m).run s) := by
  rw [addToBinValuesIfTwoThirds_run]
  split_ifs with hmem hquorum hr
  · exact .refl
  · exact .after (.single (addBinValue_move hm))
      (lottery_sound hnext (hr.trans (Exec.currentRound_addBinValue s c m.r m.value).symm))
  · exact .single (addBinValue_move hm)
  · exact .refl

theorem broadcastValue_moves (hm : V m.value) : Moves c me V s (s.broadcastValue m) := by
  unfold Exec.broadcastValue
  split_ifs with hsent
  · exact .refl
  · exact .single (.sendValue s m hm hsent)

theorem entered_moves {v : Value} (hv : V v)
    (hdecided : s.inst.isDecided = true → v = s.inst.decidedValue) :
    Moves c me V s (s.entered c v) := by
  have hsend : Moves c me V (s.nextRound v)
      ((s.nextRound v).broadcastValue (s.estimateMessage v)) := broadcastValue_moves hv
  exact .head (.nextRound s v hdecided) (hsend.tail (.vote _ _ v c.schainIndex (.inl rfl)))

theorem relayed_moves (hm : V m.value) : Moves c me V s (s.relayed c m) := by
  unfold Exec.relayed
  split_ifs
  · exact broadcastValue_moves hm
  · exact .refl

/-- What was decided is zero or one. -/
def DecidedBinary (s : Exec) : Prop := s.inst.isDecided = true → s.inst.decidedValue.IsBinary

theorem DecidedBinary.relayed (hs : DecidedBinary s) (m : Message) :
    DecidedBinary (s.relayed c m) := by
  unfold Exec.relayed Exec.broadcastValue
  split_ifs
  · exact hs
  · exact hs
  · exact hs

theorem auxVoteShare_error {e : String} (h : auxVoteShare c m = .error e) :
    e = "State check failed::sigShare" ∨ e = "verifyThresholdSigShare" := by
  unfold auxVoteShare at h
  split_ifs at h
  split at h
  · cases h
    exact .inl rfl
  · split_ifs at h
    cases h
    exact .inr rfl

/-- A message that is not for the instance is thrown at once. -/
theorem processMessage_run_of_key_ne (hkey : me.message.key ≠ s.inst.key) :
    ∃ e ∉ orderChecks, (processMessage c me).run s = .error e s := by
  by_cases hblock : me.message.blockID = s.inst.blockID
  · have hproposer : me.message.blockProposerIndex ≠ s.inst.blockProposerIndex := by
      intro hproposer
      exact hkey (congrArg₂ ProtocolKey.mk hblock hproposer)
    refine ⟨"State check failed::msg->getBlockProposerIndex() == getBlockProposerIndex()",
      by decide, (run_checkState_bind_of_true (by simpa using hblock) _ _ s).trans ?_⟩
    rw [EStateM.run_bind, checkState_run_of_false (by simpa using hproposer)]
    rfl
  · refine ⟨"State check failed::msg->getBlockID() == getBlockID()", by decide, ?_⟩
    show (checkState (me.message.blockID == s.inst.blockID) _ >>= fun _ => _ :
      Handler Unit).run s = _
    rw [EStateM.run_bind, checkState_run_of_false (by simpa using hblock)]
    rfl

variable (hV : ∀ v : Value, v.IsBinary → V v)
include hV

theorem enterNextRound_sound (hnext : EntersSoundly c me V next) :
    EntersSoundly c me V (enterNextRound c next) := by
  intro s v henter
  rw [enterNextRound_run, if_pos henter.quorum]
  have hentered : Moves c me V s (s.entered c v) :=
    entered_moves (hV v henter.binary) henter.decided
  split_ifs with hround hknown
  · exact hentered
  · exact .after hentered (addToBinValues_sound hnext (hV v henter.binary))
  · exact ⟨.refl, by decide⟩

theorem proceedWithNextRound_sound : EntersSoundly c me V (proceedWithNextRound c) := by
  have hfuel : ∀ fuel, EntersSoundly c me V (proceedWithNextRoundFuel c fuel) := by
    intro fuel
    induction fuel with
    | zero => exact fun s v _ => ⟨.refl, by decide⟩
    | succ fuel ih => exact enterNextRound_sound hV ih
  exact hfuel 100

theorem ifAlreadyDecided_sound (r : ℕ) (hs : DecidedBinary s) :
    Sound c me V s
      ((ifAlreadyDecidedSendDelayedEstimateForNextRound c (proceedWithNextRound c) r).run s) := by
  show Sound c me V s ((if s.inst.isDecided = true ∧ _ then _ else pure () : Handler Unit).run s)
  split_ifs with hcond
  · exact proceedWithNextRound_sound hV s _ ⟨hs hcond.1, fun _ => rfl, hcond.2.2⟩
  · exact .refl

/-- What follows the relaying of a vote. -/
theorem estimateAndAdd_sound (hme : V me.message.value) (hs : DecidedBinary s) :
    Sound c me V s
      ((ifAlreadyDecidedSendDelayedEstimateForNextRound c (proceedWithNextRound c) me.message.r
        >>= fun _ => addToBinValuesIfTwoThirds c (proceedWithNextRound c) me.message).run s) :=
  .bind (ifAlreadyDecided_sound hV me.message.r hs) fun _ _ _ =>
    addToBinValues_sound (proceedWithNextRound_sound hV) hme

theorem processBVB_sound (hme : V me.message.value)
    (hs : DecidedBinary s) (hbvb : me.message.msgType = .bvBroadcast) :
    Sound c me V s ((processNetworkMessageImpl c me).run s) := by
  rw [processBVB_run s hbvb]
  have hvote : Move c me V s (s.vote me.message.r me.message.value me.srcSchainIndex) :=
    .vote _ _ _ _ (.inr rfl)
  split_ifs with hround hknown
  · exact .single hvote
  · have hs' : DecidedBinary (s.vote me.message.r me.message.value me.srcSchainIndex) := hs
    exact .after (.head hvote (relayed_moves hme))
      (estimateAndAdd_sound hV hme (hs'.relayed me.message))
  · exact ⟨.refl, by decide⟩

theorem processAUX_sound (haux : me.message.msgType = .auxBroadcast) :
    Sound c me V s ((processNetworkMessageImpl c me).run s) := by
  rw [processAUX_run s haux]
  cases hshare : auxVoteShare c me.message with
  | error e =>
    dsimp only
    split_ifs
    · refine ⟨.refl, ?_⟩
      rcases auxVoteShare_error hshare with rfl | rfl <;> decide
    · exact ⟨.refl, by decide⟩
  | ok share =>
    have hvote : Move c me V s
        (s.auxVote me.message.r me.message.value me.srcSchainIndex share) := .auxVote s share hshare
    dsimp only
    split_ifs with hround hnew
    · exact .after (.single hvote) (lottery_sound (proceedWithNextRound_sound hV) hnew.2)
    · exact .single hvote
    · exact ⟨.refl, by decide⟩

theorem processParentProposal_sound (hme : V me.message.value) :
    Sound c me V s ((processParentProposal c me).run s) := by
  rw [processParentProposal_run]
  split_ifs with hround
  · have hsend : Moves c me V (s.propose me.message.value)
        ((s.propose me.message.value).broadcastValue me.message) := broadcastValue_moves hme
    exact .after (.head (.propose s me.message.value) (hsend.tail
      (.vote _ _ _ _ (.inr rfl)))) (addToBinValues_sound (proceedWithNextRound_sound hV) hme)
  · exact ⟨.refl, by decide⟩

theorem processMessage_sound (hme : V me.message.value) (hs : DecidedBinary s) :
    Sound c me V s ((processMessage c me).run s) := by
  by_cases hkey : me.message.key = s.inst.key
  · rw [processMessage_run hkey]
    cases me.origin with
    | network =>
      cases htype : me.message.msgType with
      | bvBroadcast => exact processBVB_sound hV hme hs htype
      | auxBroadcast => exact processAUX_sound hV htype
    | parent => exact processParentProposal_sound hV hme
  · obtain ⟨e, he, hrun⟩ := processMessage_run_of_key_ne (c := c) hkey
    rw [hrun]
    exact ⟨.refl, he⟩

end Handlers

end SkaleConsensus.BinConsensus
