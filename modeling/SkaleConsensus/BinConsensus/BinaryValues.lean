import SkaleConsensus.BinConsensus.Orderly
import SkaleConsensus.BinConsensus.Safety

/-! Values that are not zero or one.

The value of a message is a number of 64 bits on the wire and one of 8 bits in
memory, and nothing asks for it to be zero or one. A vote for any other number is
counted as a vote for true. When it is the one that makes a third of the nodes, the
instance relays the number and remembers zero; when it makes two thirds, the number
becomes a binary value and goes out as AUX (`two_becomes_binary`).

`binary_iff_harmless` says that there is no other way: the values stay binary as
long as no such vote makes a third. -/
namespace SkaleConsensus.BinConsensus
open Library Relation BinConsensusInstance

/-! ### What arrives -/

/-- What an instance is handed: a message of another node, whose `"v"` is any `uint64_t`, or
the proposal of its parent. -/
inductive Arrival where
  | message (m : Message) (value : UInt64) (srcSchainIndex : SchainIndex)
  | proposal (b : Bool)
deriving DecidableEq, Repr

/-- `parseMessage` keeps the lowest byte of the value. -/
def Arrival.envelope (c : Schain) (K : ProtocolKey) : Arrival → MessageEnvelope
  | .message m value i => ⟨.network, {m with value := value.toUInt8}, i⟩
  | .proposal b => proposalEnvelope c.schainIndex K b

/-- One instance and what arrives for it. -/
def arrivals (c : Schain) (K : ProtocolKey) : Machine Exec Arrival where
  initial := .start K
  step a s := some (handle c s (a.envelope c K))

/-- Only zero and one are binary, remembered or sent, and what is remembered as sent is what
was sent. -/
structure BinaryState (s : Exec) : Prop where
  binValues : ∀ r, ∀ v ∈ s.inst.binValues r, v.IsBinary
  broadcastValues : ∀ r, ∀ v ∈ s.inst.broadcastValues r, v.IsBinary
  sent : ∀ m ∈ s.sent, m.value.IsBinary
  known : ∀ r v, v ∈ s.inst.broadcastValues r ↔
    ∃ m ∈ s.sent, m.msgType = .bvBroadcast ∧ m.r = r ∧ m.value = v

/-- A vote that is counted and makes a third of the nodes. -/
structure MakesThird (c : Schain) (s : BinConsensusInstance) (me : MessageEnvelope) : Prop where
  bvBroadcast : me.message.msgType = .bvBroadcast
  key : me.message.key = s.key
  round : me.message.r ≤ s.currentRound + 1
  fresh : me.srcSchainIndex ∉ s.bvbVotes me.message.value.toBool me.message.r
  third : isThird c ((s.bvbVotes me.message.value.toBool me.message.r).card + 1) = true

/-- Only a vote for zero or one makes a third. -/
def Harmless (c : Schain) (me : MessageEnvelope) (s : Exec) : Prop :=
  me.message.value.IsBinary ∨ ¬ MakesThird c s.inst me

/-! ### What a move does -/

theorem BinaryState.start (K : ProtocolKey) : BinaryState (.start K) where
  binValues _ v hv := absurd hv (Finset.notMem_empty v)
  broadcastValues _ v hv := absurd hv (Finset.notMem_empty v)
  sent _ hm := absurd hm List.not_mem_nil
  known r v := by simp [Exec.start, BinConsensusInstance.create]

namespace BinaryState
variable {c : Schain} {me : MessageEnvelope} {s s' : Exec}

theorem sendValue (h : BinaryState s) {m : Message} (hm : m.value.IsBinary) :
    BinaryState (s.sendValue m) := by
  have hmem := s.mem_broadcastValues_sendValue hm
  refine ⟨h.binValues, fun r v hv => ?_, fun m' hm' => ?_, fun r v => ?_⟩
  · rcases (hmem r v).mp hv with hold | ⟨-, rfl⟩
    · exact h.broadcastValues r v hold
    · exact hm
  · rcases List.mem_append.mp hm' with hold | hlast
    · exact h.sent m' hold
    · obtain rfl := List.mem_singleton.mp hlast
      exact hm
  · rw [hmem, h.known]
    constructor
    · rintro (⟨m', hm', hfields⟩ | ⟨rfl, rfl⟩)
      · exact ⟨m', List.mem_append_left _ hm', hfields⟩
      · exact ⟨_, List.mem_append_right _ (List.mem_singleton_self _), rfl, rfl, rfl⟩
    · rintro ⟨m', hm', htype, hround, hvalue⟩
      rcases List.mem_append.mp hm' with hold | hlast
      · exact .inl ⟨m', hold, htype, hround, hvalue⟩
      · obtain rfl := List.mem_singleton.mp hlast
        exact .inr ⟨hround.symm, hvalue.symm⟩

theorem binValue (h : BinaryState s) (r : ℕ) {v : Value} (hv : v.IsBinary) :
    BinaryState (s.binValue r v) := by
  refine {h with binValues := fun r' v' hv' => ?_}
  rcases s.mem_binValues_binValue.mp hv' with hold | ⟨-, rfl⟩
  · exact h.binValues r' v' hold
  · exact hv

theorem auxSelfVote (h : BinaryState s) (r : ℕ) {v : Value} (hv : v.IsBinary) :
    BinaryState (s.auxSelfVote c r v) := by
  refine {h with
    sent := fun m hm => ?_
    known := fun r' v' => ?_}
  · rcases List.mem_append.mp hm with hold | hlast
    · exact h.sent m hold
    · obtain rfl := List.mem_singleton.mp hlast
      exact hv
  · refine (h.known r' v').trans ⟨?_, ?_⟩
    · rintro ⟨m, hm, hfields⟩
      exact ⟨m, List.mem_append_left _ hm, hfields⟩
    · rintro ⟨m, hm, htype, hfields⟩
      rcases List.mem_append.mp hm with hold | hlast
      · exact ⟨m, hold, htype, hfields⟩
      · obtain rfl := List.mem_singleton.mp hlast
        cases htype

theorem move (h : BinaryState s) (hmove : Move c me Value.IsBinary s s') : BinaryState s' := by
  cases hmove with
  | sendValue m hm hnew => exact h.sendValue hm
  | firstBinValue r v hv hempty => exact (h.binValue r hv).auxSelfVote r hv
  | binValue r v hv hne => exact h.binValue r hv
  | _ => exact {h with}

theorem moves (h : BinaryState s) (hmoves : Moves c me Value.IsBinary s s') : BinaryState s' := by
  induction hmoves with
  | refl => exact h
  | tail _ hmove ih => exact ih.move hmove

end BinaryState

/-- Only the node itself and the sender are counted while a message is processed. -/
theorem Moves.bvbVotes_subset {c : Schain} {me : MessageEnvelope} {V : Value → Prop} {s s' : Exec}
    (h : Moves c me V s s') (b : Bool) (r : ℕ) :
    s'.inst.bvbVotes b r ⊆
      insert c.schainIndex (insert me.srcSchainIndex (s.inst.bvbVotes b r)) := by
  induction h with
  | refl => exact (Finset.subset_insert ..).trans (Finset.subset_insert ..)
  | @tail t u _ hmove ih =>
    cases hmove with
    | vote r' v i hi =>
      intro k hk
      simp only [Exec.vote, bvbVotes_bvbVoteCore] at hk
      split_ifs at hk with hsame
      · rcases Finset.mem_insert.mp hk with rfl | hold
        · rcases hi with rfl | rfl
          · exact Finset.mem_insert_self ..
          · exact Finset.mem_insert_of_mem (Finset.mem_insert_self ..)
        · exact ih hold
      · exact ih hk
    | _ => exact ih

/-! ### What a message does -/

section Message
variable {c : Schain} {me : MessageEnvelope} {s : Exec}

theorem BinaryState.handle_of_isBinary (h : BinaryState s) (hs : DecidedBinary s)
    (hme : me.message.value.IsBinary) : BinaryState (handle c s me) :=
  h.moves (processMessage_sound (fun _ => id) hme hs).moves

/-- With less than a third after the vote, the node's own vote does not make two thirds. -/
theorem not_isTwoThird_of_not_isThird {votes votes' : Finset SchainIndex} {i j : SchainIndex}
    (hsub : votes' ⊆ insert j (insert i votes)) (hthird : ¬ isThird c (votes.card + 1) = true) :
    ¬ isTwoThird c votes'.card = true := by
  have hcard : votes'.card ≤ votes.card + 1 + 1 :=
    (Finset.card_le_card hsub).trans ((Finset.card_insert_le ..).trans
      (Nat.succ_le_succ (Finset.card_insert_le ..)))
  simp only [isThird, isTwoThird, decide_eq_true_eq] at hthird ⊢
  omega

theorem getBVBVoteCount_vote {r : ℕ} {v : Value} {i : SchainIndex}
    (hfresh : i ∉ s.inst.bvbVotes v.toBool r) :
    (s.vote r v i).inst.getBVBVoteCount v r = (s.inst.bvbVotes v.toBool r).card + 1 := by
  simp only [getBVBVoteCount, Exec.vote,
    bvbVotes_bvbVoteCore, and_self, if_true]
  exact Finset.card_insert_of_notMem hfresh

/-- A vote that makes no third changes no value, whatever it is for. -/
theorem BinaryState.processBVB_of_not_third (h : BinaryState s) (hs : DecidedBinary s)
    (hbvb : me.message.msgType = .bvBroadcast) (hvalue : ¬ me.message.value.IsBinary)
    (hfresh : me.srcSchainIndex ∉ s.inst.bvbVotes me.message.value.toBool me.message.r)
    (hthird : ¬ isThird c
      ((s.inst.bvbVotes me.message.value.toBool me.message.r).card + 1) = true) :
    BinaryState (finalState (processNetworkMessageImpl c me) s) := by
  have hrun := processBVB_run (c := c) s hbvb
  split_ifs at hrun with hround
  · rw [finalState_congr hrun]
    have hvote : Moves c me Value.IsBinary s
        (s.vote me.message.r me.message.value me.srcSchainIndex) :=
      .single (.vote _ _ _ _ (.inr rfl))
    have hquiet : (s.vote me.message.r me.message.value me.srcSchainIndex).relayed c me.message =
        s.vote me.message.r me.message.value me.srcSchainIndex := by
      unfold Exec.relayed
      rw [getBVBVoteCount_vote hfresh, if_neg hthird]
    have hs' : DecidedBinary (s.vote me.message.r me.message.value me.srcSchainIndex) := hs
    rw [hquiet]
    have hestimate := (ifAlreadyDecided_sound (c := c) (V := Value.IsBinary) (fun _ => id)
      me.message.r hs').after hvote
    cases hfollow : (ifAlreadyDecidedSendDelayedEstimateForNextRound c (proceedWithNextRound c)
        me.message.r).run (s.vote me.message.r me.message.value me.srcSchainIndex) with
    | error e t =>
      rw [hfollow] at hestimate
      rw [finalState_bind_of_error hfollow]
      exact h.moves hestimate.1
    | ok u t =>
      rw [hfollow] at hestimate
      rw [finalState_bind_of_ok hfollow]
      have ht : BinaryState t := h.moves hestimate
      have hquorum : ¬ isTwoThird c (t.inst.getBVBVoteCount me.message.value me.message.r) = true :=
        not_isTwoThird_of_not_isThird (Moves.bvbVotes_subset hestimate _ _) hthird
      have hstay := addToBinValuesIfTwoThirds_run c (proceedWithNextRound c) me.message t
      rw [if_neg fun hmem => hvalue (ht.binValues _ _ hmem), if_neg hquorum] at hstay
      rw [finalState_of_ok hstay]
      exact ht
  · rw [finalState_of_error hrun]
    exact h

theorem BinaryState.handle_of_harmless (h : BinaryState s) (hs : DecidedBinary s)
    (hnet : me.origin = .network) (hharmless : Harmless c me s) : BinaryState (handle c s me) := by
  by_cases hvalue : me.message.value.IsBinary
  · exact h.handle_of_isBinary hs hvalue
  have hno : ¬ MakesThird c s.inst me := hharmless.resolve_left hvalue
  unfold handle
  by_cases hkey : me.message.key = s.inst.key
  case neg =>
    obtain ⟨e, -, hrun⟩ := processMessage_run_of_key_ne (c := c) hkey
    rw [finalState_of_error hrun]
    exact h
  rw [finalState_congr (processMessage_run hkey), hnet]
  cases htype : me.message.msgType with
  | auxBroadcast =>
    exact h.moves (processAUX_sound (fun _ => id) htype).moves
  | bvBroadcast =>
    by_cases hfresh : me.srcSchainIndex ∈ s.inst.bvbVotes me.message.value.toBool me.message.r
    · have hrun := processBVB_run (c := c) s htype
      rw [if_pos hfresh] at hrun
      split_ifs at hrun
      · rw [finalState_of_ok hrun]
        exact {h with}
      · rw [finalState_of_error hrun]
        exact h
    by_cases hround : me.message.r ≤ s.inst.currentRound + 1
    · exact h.processBVB_of_not_third hs htype hvalue hfresh fun hthird =>
        hno ⟨htype, hkey, hround, hfresh, hthird⟩
    · have hrun := processBVB_run (c := c) s htype
      rw [if_neg hround] at hrun
      rw [finalState_of_error hrun]
      exact h

theorem BinaryState.not_handle_of_makesThird (h : BinaryState s) (hs : DecidedBinary s)
    (hnet : me.origin = .network) (hvalue : ¬ me.message.value.IsBinary)
    (hthird : MakesThird c s.inst me) : ¬ BinaryState (handle c s me) := by
  have hrun := processBVB_run (c := c) s hthird.bvBroadcast
  rw [if_pos hthird.round, if_neg hthird.fresh] at hrun
  have hs' : DecidedBinary (s.vote me.message.r me.message.value me.srcSchainIndex) := hs
  have hrest : Progress ((s.vote me.message.r me.message.value me.srcSchainIndex).relayed c
      me.message) (handle c s me) := by
    unfold handle
    rw [finalState_congr (processMessage_run hthird.key), hnet, finalState_congr hrun]
    exact (estimateAndAdd_sound (V := Meant me) (fun _ => .inl) (.inr rfl)
      (hs'.relayed me.message)).moves.progress
  have hrelay : (s.vote me.message.r me.message.value me.srcSchainIndex).relayed c me.message =
      (s.vote me.message.r me.message.value me.srcSchainIndex).sendValue me.message := by
    unfold Exec.relayed Exec.broadcastValue
    rw [getBVBVoteCount_vote hthird.fresh, if_pos hthird.third]
    exact if_neg fun hmem => hvalue (h.broadcastValues _ _ hmem)
  rw [hrelay] at hrest
  have hsent := hrest.sent (List.mem_append_right _ (List.mem_singleton_self _))
  intro hafter
  have hbinary := hafter.sent _ hsent
  exact hvalue hbinary

theorem binaryState_handle_iff {K : ProtocolKey} (h : BinaryState s) (hs : DecidedBinary s)
    (a : Arrival) :
    BinaryState (handle c s (a.envelope c K)) ↔ Harmless c (a.envelope c K) s := by
  cases a with
  | proposal b =>
    have hvalue : (Arrival.envelope c K (.proposal b)).message.value.IsBinary :=
      Value.isBinary_ofBool b
    exact iff_of_true (h.handle_of_isBinary hs hvalue) (.inl hvalue)
  | message m value i =>
    refine ⟨fun hafter => ?_, h.handle_of_harmless hs rfl⟩
    by_contra hharm
    obtain ⟨hvalue, hthird⟩ := not_or.mp hharm
    exact h.not_handle_of_makesThird hs rfl hvalue (not_not.mp hthird) hafter

end Message

/-! ### Whatever arrives -/

theorem exists_runFrom_arrivals (c : Schain) (K : ProtocolKey) (s : Exec) (events : List Arrival) :
    ∃ s', (arrivals c K).runFrom s events = some s' := by
  induction events generalizing s with
  | nil => exact ⟨s, rfl⟩
  | cons a rest ih => exact ih (handle c s (a.envelope c K))

/-- The values of an instance are binary throughout exactly if every vote for another value
that arrives makes no third. -/
theorem binary_iff_harmless (c : Schain) (K : ProtocolKey) (events : List Arrival) :
    (arrivals c K).Always BinaryState (.start K) events ↔
      (arrivals c K).Keeps (fun a s => Harmless c (a.envelope c K) s) (.start K) events := by
  obtain ⟨s', hrun⟩ := exists_runFrom_arrivals c K (.start K) events
  refine Machine.always_iff_keeps (I := Orderly) ?_ (.start K) (.start K) hrun
  rintro a s t hs hbinary hstep
  cases hstep
  exact ⟨hs.handle _, binaryState_handle_iff hbinary hs.binary a⟩

/-- A vote of node `i` in the first round of `firstKey`. -/
def voteFor (i : SchainIndex) (value : UInt64) : Arrival :=
  .message ⟨.bvBroadcast, firstKey.blockID, firstKey.blockProposerIndex, 0, 0, none⟩ value i

/-- Of four nodes, two vote for one and the Byzantine one votes for two: the instance relays
two and remembers zero, two is its first binary value, and its AUX message carries two. -/
theorem two_becomes_binary :
    ∃ s, (arrivals (plainNode 4 1) firstKey).run [voteFor 2 1, voteFor 3 1, voteFor 4 2] = some s ∧
      2 ∈ s.inst.binValues 0 ∧
      (∃ m ∈ s.sent, m.msgType = .auxBroadcast ∧ m.value = 2) ∧
      (∃ m ∈ s.sent, m.msgType = .bvBroadcast ∧ m.value = 2) ∧
      0 ∈ s.inst.broadcastValues 0 ∧ s.bvbCount 0 0 = 0 ∧ ¬ BinaryState s := by
  obtain ⟨s, hrun, htwo, hrest⟩ :
      ∃ s, (arrivals (plainNode 4 1) firstKey).run [voteFor 2 1, voteFor 3 1, voteFor 4 2] =
        some s ∧ 2 ∈ s.inst.binValues 0 ∧
        (∃ m ∈ s.sent, m.msgType = .auxBroadcast ∧ m.value = 2) ∧
        (∃ m ∈ s.sent, m.msgType = .bvBroadcast ∧ m.value = 2) ∧
        0 ∈ s.inst.broadcastValues 0 ∧ s.bvbCount 0 0 = 0 := Machine.exists_run (by decide +kernel)
  obtain ⟨haux, hbvb, hzero, hcount⟩ := hrest
  refine ⟨s, hrun, htwo, haux, hbvb, hzero, hcount, fun h => ?_⟩
  exact absurd (h.binValues 0 2 htwo) (by decide)

end SkaleConsensus.BinConsensus
