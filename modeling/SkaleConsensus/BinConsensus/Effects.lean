import SkaleConsensus.BinConsensus.Instance

/-! What a handler can do to its instance.

Whatever order the handlers call each other in, and wherever a check throws, the
instance only ever moves by the steps of `Effect`: it counts the vote it was
handed or its own, sends a value it has a reason to send, accepts a binary value
with its quorum and sends the first of them as AUX, draws a random number,
decides, or enters the next round for one of three reasons.
Invariants are proved one step at a time and never look at a handler; that the
handlers do nothing else is proved with them. -/
namespace SkaleConsensus.BinConsensus
open Library Relation BinConsensusInstance

/-! ### The moves -/

namespace BinConsensusInstance
variable (s : BinConsensusInstance)

@[simp] theorem bvbVotes_bvbVoteCore (r r' : ℕ) (v : Value) (i : SchainIndex) (b : Bool) :
    (s.bvbVoteCore r v i).bvbVotes b r' =
      if r' = r ∧ v.toBool = b then insert i (s.bvbVotes b r') else s.bvbVotes b r' := by
  unfold bvbVoteCore bvbVotes
  cases v.toBool <;> cases b <;> by_cases hr : r' = r
  all_goals
    first
    | subst hr
      simp
    | simp [hr]

@[simp] theorem keys_auxVoteCore (r r' : ℕ) (v : Value) (i : SchainIndex)
    (share : Option SigShare) (b : Bool) :
    ((s.auxVoteCore r v i share).auxVotes b r').keys =
      if r' = r ∧ v.toBool = b then insert i (s.auxVotes b r').keys
      else (s.auxVotes b r').keys := by
  unfold auxVoteCore auxVotes
  cases v.toBool <;> cases b <;> by_cases hr : r' = r
  all_goals
    first
    | subst hr
      simp
    | simp [hr]

end BinConsensusInstance

namespace Exec
variable (s : Exec)

def vote (r : ℕ) (v : Value) (index : SchainIndex) : Exec :=
  {s with inst := s.inst.bvbVoteCore r v index}

def auxVote (r : ℕ) (v : Value) (index : SchainIndex) (share : Option SigShare) : Exec :=
  {s with inst := s.inst.auxVoteCore r v index share}

def sendValue (m : Message) : Exec :=
  {s with
    sent := s.sent ++ [{m with msgType := .bvBroadcast, sigShare := none}]
    inst := s.inst.insertIntoBroadcastValues m.r (Value.ofBool (m.value == 1))}

/-- The share an AUX message of round `r` is signed with. -/
def coinShare (c : Schain) (r : ℕ) : Option SigShare :=
  if COMMON_COIN_ROUND ≤ r then
    some (c.signBinaryConsensusSigShare (getCommonCoinHash c s.inst.key r) s.inst.blockID r)
  else none

def auxMessage (c : Schain) (r : ℕ) (v : Value) : Message :=
  ⟨.auxBroadcast, s.inst.blockID, s.inst.blockProposerIndex, r, v, s.coinShare c r⟩

def auxSelfVote (c : Schain) (r : ℕ) (v : Value) : Exec :=
  {s with
    sent := s.sent ++ [s.auxMessage c r v]
    inst := s.inst.auxVoteCore r v c.schainIndex (s.coinShare c r)}

def binValue (r : ℕ) (v : Value) : Exec := {s with inst := s.inst.insertIntoBinValues r v}

/-- A value becomes binary; the first of its round is sent as AUX. -/
def addBinValue (c : Schain) (r : ℕ) (v : Value) : Exec :=
  if s.inst.binValues r = ∅ then (s.binValue r v).auxSelfVote c r v else s.binValue r v

/-- A value goes out unless it is remembered as sent. -/
def broadcastValue (m : Message) : Exec :=
  if m.value ∈ s.inst.broadcastValues m.r then s else s.sendValue m

def drawn (r : ℕ) (random : ℕ) : Exec := {s with randomDB := s.randomDB ++ [(r, random)]}

def decided (b : Bool) : Exec :=
  {s with
    inst := s.inst.setDecidedRoundAndValue s.inst.currentRound (Value.ofBool b)
    reported := s.reported ++ [(Value.ofBool b, s.inst.currentRound)]}

def nextRound (v : Value) : Exec :=
  let r := s.inst.currentRound + 1
  {s with inst := (s.inst.setCurrentRound r).setProposal r v}

def propose (v : Value) : Exec := {s with inst := s.inst.setProposal 0 v}

/-- A value that is zero or one is remembered as it is. -/
theorem mem_broadcastValues_sendValue {m : Message} (hm : m.value.IsBinary) (r : ℕ) (v : Value) :
    v ∈ (s.sendValue m).inst.broadcastValues r ↔
      v ∈ s.inst.broadcastValues r ∨ r = m.r ∧ v = m.value := by
  have hself : Value.ofBool (m.value == 1) = m.value := by
    rw [hm]
    cases m.value.toBool <;> rfl
  show v ∈ Function.update s.inst.broadcastValues m.r
    (insert (Value.ofBool (m.value == 1)) (s.inst.broadcastValues m.r)) r ↔ _
  rw [hself]
  by_cases hr : r = m.r
  · subst hr
    simp [or_comm]
  · simp [hr]

theorem mem_binValues_binValue {r r' : ℕ} {v v' : Value} :
    v' ∈ (s.binValue r v).inst.binValues r' ↔ v' ∈ s.inst.binValues r' ∨ r' = r ∧ v' = v := by
  show v' ∈ Function.update s.inst.binValues r (insert v (s.inst.binValues r)) r' ↔ _
  by_cases hr : r' = r
  · subst hr
    simp [or_comm]
  · simp [hr]

end Exec

def Supports (c : Schain) (s : BinConsensusInstance) (r : ℕ) (b : Bool) : Prop :=
  Value.ofBool b ∈ s.binValues r ∧ isTwoThird c (s.auxVotes b r).size = true

/-- The reasons to enter the round after `r`, and the estimate each gives. -/
inductive NextEstimate (c : Schain) (s : Exec) (r : ℕ) : Value → Prop where
  /-- Both values have AUX votes: the coin. -/
  | coin (random : ℕ) : (r, random) ∈ s.randomDB → (∀ b, Value.ofBool b ∈ s.inst.binValues r) →
      NextEstimate c s r (Value.ofBool (commonCoinValue random))
  /-- One value has a quorum, and the coin is the other. -/
  | supported (b : Bool) : Supports c s.inst r b → NextEstimate c s r (Value.ofBool b)
  /-- Decided: keep voting for the decision. -/
  | decided : s.inst.isDecided = true → s.inst.decidedRound ≤ r →
      NextEstimate c s r s.inst.decidedValue

/-- A value of a round an instance works with: its own estimate, or the value of
the BVB message it processes. -/
def Named (me : MessageEnvelope) (s : Exec) (r : ℕ) (v : Value) : Prop :=
  s.inst.proposals r = some v ∨
    (me.message.msgType = .bvBroadcast ∧ me.message.r = r ∧ me.message.value = v)

/-- One step of an instance of node `c` while it processes `me`. -/
inductive Effect (c : Schain) (me : MessageEnvelope) : Exec → Exec → Prop where
  | vote (s : Exec) : me.origin = .network → me.message.msgType = .bvBroadcast →
      Effect c me s (s.vote me.message.r me.message.value me.srcSchainIndex)
  | selfVote (s : Exec) (r : ℕ) (v : Value) : s.inst.proposals r = some v →
      Effect c me s (s.vote r v c.schainIndex)
  | sendValue (s : Exec) (m : Message) : m.key = s.inst.key →
      m.value ∉ s.inst.broadcastValues m.r →
      (s.inst.proposals m.r = some m.value ∨
        (me.message.msgType = .bvBroadcast ∧ m = me.message ∧
          isThird c (s.inst.getBVBVoteCount m.value m.r) = true)) →
      Effect c me s (s.sendValue m)
  /-- The first binary value of a round goes out as AUX. -/
  | firstBinValue (s : Exec) (r : ℕ) (v : Value) : Named me s r v → s.inst.binValues r = ∅ →
      isTwoThird c (s.inst.getBVBVoteCount v r) = true →
      Effect c me s ((s.binValue r v).auxSelfVote c r v)
  | binValue (s : Exec) (r : ℕ) (v : Value) : Named me s r v → s.inst.binValues r ≠ ∅ →
      isTwoThird c (s.inst.getBVBVoteCount v r) = true → Effect c me s (s.binValue r v)
  | auxVote (s : Exec) (share : Option SigShare) : me.origin = .network →
      me.message.msgType = .auxBroadcast → auxVoteShare c me.message = .ok share →
      Effect c me s (s.auxVote me.message.r me.message.value me.srcSchainIndex share)
  | draw (s : Exec) (random : ℕ) : roundRandom c s.inst s.inst.currentRound = .ok random →
      Effect c me s (s.drawn s.inst.currentRound random)
  | decide (s : Exec) (random : ℕ) : s.inst.isDecided = false →
      (s.inst.currentRound, random) ∈ s.randomDB →
      Supports c s.inst s.inst.currentRound (commonCoinValue random) →
      Effect c me s (s.decided (commonCoinValue random))
  | nextRound (s : Exec) (v : Value) : s.inst.currentRound < 100 →
      NextEstimate c s s.inst.currentRound v → Effect c me s (s.nextRound v)
  | propose (s : Exec) (b : Bool) : me.origin = .parent → me.message.value = Value.ofBool b →
      (s.inst.proposals 0 = none ∨ s.inst.proposals 0 = some (Value.ofBool b)) →
      Effect c me s (s.propose (Value.ofBool b))

/-- Any number of steps. -/
abbrev Effects (c : Schain) (me : MessageEnvelope) : Exec → Exec → Prop :=
  ReflTransGen (Effect c me)

/-! ### What a step keeps -/

/-- Votes, binary values, messages, random numbers and the decision stay. -/
structure Grows (s s' : Exec) : Prop where
  key : s'.inst.key = s.inst.key
  currentRound : s.inst.currentRound ≤ s'.inst.currentRound
  bvbVotes : ∀ b r, s.inst.bvbVotes b r ⊆ s'.inst.bvbVotes b r
  auxVotes : ∀ b r, (s.inst.auxVotes b r).keys ⊆ (s'.inst.auxVotes b r).keys
  binValues : ∀ r, s.inst.binValues r ⊆ s'.inst.binValues r
  sent : s.sent ⊆ s'.sent
  randomDB : s.randomDB ⊆ s'.randomDB
  decided : s.inst.isDecided = true → s'.inst.isDecided = true ∧
    s'.inst.decidedValue = s.inst.decidedValue ∧ s'.inst.decidedRound = s.inst.decidedRound

theorem Grows.refl (s : Exec) : Grows s s where
  key := rfl
  currentRound := le_rfl
  bvbVotes _ _ := subset_rfl
  auxVotes _ _ := subset_rfl
  binValues _ := subset_rfl
  sent := List.Subset.refl _
  randomDB := List.Subset.refl _
  decided h := ⟨h, rfl, rfl⟩

theorem Grows.trans {s t u : Exec} (h : Grows s t) (h' : Grows t u) : Grows s u where
  key := h'.key.trans h.key
  currentRound := h.currentRound.trans h'.currentRound
  bvbVotes b r := (h.bvbVotes b r).trans (h'.bvbVotes b r)
  auxVotes b r := (h.auxVotes b r).trans (h'.auxVotes b r)
  binValues r := (h.binValues r).trans (h'.binValues r)
  sent := List.Subset.trans h.sent h'.sent
  randomDB := List.Subset.trans h.randomDB h'.randomDB
  decided hd := by
    obtain ⟨hd', hv, hr⟩ := h.decided hd
    obtain ⟨hd'', hv', hr'⟩ := h'.decided hd'
    exact ⟨hd'', hv'.trans hv, hr'.trans hr⟩

theorem bvbVotes_subset_bvbVoteCore (s : BinConsensusInstance) (r r' : ℕ) (v : Value)
    (i : SchainIndex) (b : Bool) : s.bvbVotes b r' ⊆ (s.bvbVoteCore r v i).bvbVotes b r' := by
  rw [bvbVotes_bvbVoteCore]
  split
  · exact Finset.subset_insert ..
  · exact subset_rfl

theorem auxVotes_subset_auxVoteCore (s : BinConsensusInstance) (r r' : ℕ) (v : Value)
    (i : SchainIndex) (share : Option SigShare) (b : Bool) :
    (s.auxVotes b r').keys ⊆ ((s.auxVoteCore r v i share).auxVotes b r').keys := by
  rw [keys_auxVoteCore]
  split
  · exact Finset.subset_insert ..
  · exact subset_rfl

theorem binValues_subset_insertIntoBinValues (s : BinConsensusInstance) (r r' : ℕ) (v : Value) :
    s.binValues r' ⊆ (s.insertIntoBinValues r v).binValues r' := by
  unfold BinConsensusInstance.insertIntoBinValues
  by_cases hr : r' = r
  · subst hr
    simp
  · simp [hr]

variable {c : Schain} {me : MessageEnvelope} {s s' : Exec} {r : ℕ} {b : Bool}

theorem Effect.grows (h : Effect c me s s') : Grows s s' := by
  have base := Grows.refl s
  cases h with
  | vote => exact {base with bvbVotes := fun b r => bvbVotes_subset_bvbVoteCore ..}
  | selfVote r v => exact {base with bvbVotes := fun b r => bvbVotes_subset_bvbVoteCore ..}
  | sendValue m => exact {base with sent := List.subset_append_left ..}
  | firstBinValue r v =>
    exact {base with
      sent := List.subset_append_left ..
      binValues := fun r' => binValues_subset_insertIntoBinValues ..
      auxVotes := fun b r' => auxVotes_subset_auxVoteCore ..}
  | binValue r v => exact {base with binValues := fun r' => binValues_subset_insertIntoBinValues ..}
  | auxVote share => exact {base with auxVotes := fun b r => auxVotes_subset_auxVoteCore ..}
  | draw random => exact {base with randomDB := List.subset_append_left ..}
  | decide random hd =>
    exact {base with decided := fun hd' => absurd (hd'.symm.trans hd) (by decide)}
  | nextRound v => exact {base with currentRound := Nat.le_succ _}
  | propose b => exact {base with}

theorem Effects.grows (h : Effects c me s s') : Grows s s' := by
  induction h with
  | refl => exact .refl s
  | tail _ hstep ih => exact ih.trans hstep.grows

/-- Support once seen is there to stay. -/
theorem Supports.mono (h : Supports c s.inst r b) (hg : Grows s s') :
    Supports c s'.inst r b := by
  refine ⟨hg.binValues r h.1, ?_⟩
  have hcount := Finset.card_le_card (hg.auxVotes b r)
  have hq := h.2
  simp only [isTwoThird, OrderedMap.size_eq_card, decide_eq_true_eq] at hq ⊢
  omega

theorem NextEstimate.mono {v : Value} (h : NextEstimate c s r v) (hg : Grows s s') :
    NextEstimate c s' r v := by
  cases h with
  | coin random hmem hboth =>
    exact .coin random (hg.randomDB hmem) fun b => hg.binValues r (hboth b)
  | supported b hs => exact .supported b (hs.mono hg)
  | decided hd hle =>
    obtain ⟨hd', hv, hr⟩ := hg.decided hd
    rw [← hv]
    exact .decided hd' (hr ▸ hle)

theorem isTwoThird_mono {a b : ℕ} (hle : a ≤ b) (h : isTwoThird c a = true) :
    isTwoThird c b = true := by
  simp only [isTwoThird, decide_eq_true_eq] at h ⊢
  omega

/-! ### What a step brings -/

theorem Effect.bvbVotes_cases (h : Effect c me s s') {k : SchainIndex}
    (hk : k ∈ s'.inst.bvbVotes b r) :
    k ∈ s.inst.bvbVotes b r ∨
    (me.origin = .network ∧ me.message.msgType = .bvBroadcast ∧ me.srcSchainIndex = k ∧
      me.message.r = r ∧ me.message.value.toBool = b) ∨
    (k = c.schainIndex ∧ ∃ v, s.inst.proposals r = some v ∧ v.toBool = b) := by
  cases h with
  | vote hnet htype =>
    simp only [Exec.vote, bvbVotes_bvbVoteCore] at hk
    split_ifs at hk with hvote
    · rcases Finset.mem_insert.mp hk with rfl | hold
      · exact .inr (.inl ⟨hnet, htype, rfl, hvote.1.symm, hvote.2⟩)
      · exact .inl hold
    · exact .inl hk
  | selfVote r' v hproposed =>
    simp only [Exec.vote, bvbVotes_bvbVoteCore] at hk
    split_ifs at hk with hvote
    · obtain ⟨rfl, hv⟩ := hvote
      rcases Finset.mem_insert.mp hk with rfl | hold
      · exact .inr (.inr ⟨rfl, v, hproposed, hv⟩)
      · exact .inl hold
    · exact .inl hk
  | _ => exact .inl hk

theorem Effect.auxVotes_cases (h : Effect c me s s') {k : SchainIndex}
    (hk : k ∈ (s'.inst.auxVotes b r).keys) :
    k ∈ (s.inst.auxVotes b r).keys ∨
    (me.origin = .network ∧ me.message.msgType = .auxBroadcast ∧ me.srcSchainIndex = k ∧
      me.message.r = r ∧ me.message.value.toBool = b) ∨
    (k = c.schainIndex ∧ ∃ m ∈ s'.sent, m.msgType = .auxBroadcast ∧ m.r = r ∧
      m.value.toBool = b) := by
  cases h with
  | auxVote share hnet htype hshare =>
    simp only [Exec.auxVote, keys_auxVoteCore] at hk
    split_ifs at hk with hvote
    · rcases Finset.mem_insert.mp hk with rfl | hold
      · exact .inr (.inl ⟨hnet, htype, rfl, hvote.1.symm, hvote.2⟩)
      · exact .inl hold
    · exact .inl hk
  | firstBinValue r' v hnamed hempty hq =>
    simp only [Exec.auxSelfVote, keys_auxVoteCore] at hk
    split_ifs at hk with hvote
    · rcases Finset.mem_insert.mp hk with rfl | hold
      · exact .inr (.inr ⟨rfl, _, List.mem_append_right _ (List.mem_singleton_self _), rfl,
          hvote.1.symm, hvote.2⟩)
      · exact .inl hold
    · exact .inl hk
  | _ => exact .inl hk

/-- A message goes out with its reason. -/
theorem Effect.sent_cases (h : Effect c me s s') :
    s'.sent = s.sent ∨ ∃ m, s'.sent = s.sent ++ [m] ∧ m.key = s.inst.key ∧
      ((m.msgType = .bvBroadcast ∧ Named me s m.r m.value ∧ (s.inst.proposals m.r = some m.value ∨
          isThird c (s.inst.getBVBVoteCount m.value m.r) = true)) ∨
        (m.msgType = .auxBroadcast ∧ s.inst.binValues m.r = ∅ ∧
          m.value ∈ s'.inst.binValues m.r)) := by
  cases h with
  | sendValue m hkey hnew hreason =>
    refine .inr ⟨_, rfl, hkey, .inl ⟨rfl, ?_⟩⟩
    rcases hreason with hproposed | ⟨htype, rfl, hthird⟩
    · exact ⟨.inl hproposed, .inl hproposed⟩
    · exact ⟨.inr ⟨htype, rfl, rfl⟩, .inr hthird⟩
  | firstBinValue r v hnamed hempty hq =>
    refine .inr ⟨_, rfl, rfl, .inr ⟨rfl, hempty, ?_⟩⟩
    simp [Exec.auxSelfVote, Exec.auxMessage, Exec.binValue, BinConsensusInstance.auxVoteCore,
      BinConsensusInstance.insertIntoBinValues]
  | _ => exact .inl rfl

/-- A binary value has its quorum. -/
theorem Effect.binValues_cases (h : Effect c me s s') {v : Value} (hv : v ∈ s'.inst.binValues r) :
    v ∈ s.inst.binValues r ∨
      (Named me s r v ∧ isTwoThird c (s.inst.getBVBVoteCount v r) = true) := by
  have hinsert : ∀ r' v', v ∈ (s.inst.insertIntoBinValues r' v').binValues r →
      Named me s r' v' → isTwoThird c (s.inst.getBVBVoteCount v' r') = true →
      v ∈ s.inst.binValues r ∨
        (Named me s r v ∧ isTwoThird c (s.inst.getBVBVoteCount v r) = true) := by
    intro r' v' hmem hnamed hq
    unfold BinConsensusInstance.insertIntoBinValues at hmem
    by_cases hr : r = r'
    · subst hr
      simp only [Function.update_self, Finset.mem_insert] at hmem
      rcases hmem with rfl | hold
      · exact .inr ⟨hnamed, hq⟩
      · exact .inl hold
    · simp only [Function.update_of_ne hr] at hmem
      exact .inl hmem
  cases h with
  | firstBinValue r' v' hnamed hempty hq => exact hinsert r' v' hv hnamed hq
  | binValue r' v' hnamed hne hq => exact hinsert r' v' hv hnamed hq
  | _ => exact .inl hv

/-- An estimate is a proposal of the parent or carried over from the round before. -/
theorem Effect.proposals_cases (h : Effect c me s s') :
    (s'.inst.proposals = s.inst.proposals ∧ s'.inst.currentRound = s.inst.currentRound) ∨
    (∃ b, s'.inst.proposals = Function.update s.inst.proposals 0 (some (Value.ofBool b)) ∧
      s'.inst.currentRound = s.inst.currentRound ∧
      (s.inst.proposals 0 = none ∨ s.inst.proposals 0 = some (Value.ofBool b))) ∨
    ∃ v, s'.inst.proposals =
        Function.update s.inst.proposals (s.inst.currentRound + 1) (some v) ∧
      s'.inst.currentRound = s.inst.currentRound + 1 ∧ s.inst.currentRound < 100 ∧
      NextEstimate c s s.inst.currentRound v := by
  cases h with
  | nextRound v hround hestimate => exact .inr (.inr ⟨v, rfl, rfl, hround, hestimate⟩)
  | propose b hparent hvalue hkept => exact .inr (.inl ⟨b, rfl, rfl, hkept⟩)
  | _ => exact .inl ⟨rfl, rfl⟩

theorem Effect.decided_cases (h : Effect c me s s') (hd : s'.inst.isDecided = true) :
    (s.inst.isDecided = true ∧ s'.inst.decidedValue = s.inst.decidedValue ∧
      s'.inst.decidedRound = s.inst.decidedRound) ∨
    ∃ random, (s.inst.currentRound, random) ∈ s.randomDB ∧
      Supports c s.inst s.inst.currentRound (commonCoinValue random) ∧
      s'.inst.decidedRound = s.inst.currentRound ∧
      s'.inst.decidedValue = Value.ofBool (commonCoinValue random) := by
  cases h with
  | decide random hundecided hmem hsupport => exact .inr ⟨random, hmem, hsupport, rfl, rfl⟩
  | _ => exact .inl ⟨hd, rfl, rfl⟩

end SkaleConsensus.BinConsensus
