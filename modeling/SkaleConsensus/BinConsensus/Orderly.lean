import SkaleConsensus.BinConsensus.Moves

/-! The order an instance keeps.

Whatever envelopes an instance is handed, and wherever a handler throws on the way,
its rounds are entered one after the other, a round gets one AUX message and one BVB
message a value, and a decision is taken once and then followed. The invariant
`Orderly` is kept by every move, so that it holds between any two assignments of a
handler and after any number of envelopes. -/
namespace SkaleConsensus.BinConsensus
open Library Relation

/-! ### What a move keeps -/

/-- The round does not go back, what was sent was sent, and the decision stays. -/
structure Progress (s s' : Exec) : Prop where
  currentRound : s.inst.currentRound ≤ s'.inst.currentRound
  sent : s.sent ⊆ s'.sent
  decided : s.inst.isDecided = true → s'.inst.isDecided = true ∧
    s'.inst.decidedValue = s.inst.decidedValue ∧ s'.inst.decidedRound = s.inst.decidedRound

theorem Progress.refl (s : Exec) : Progress s s :=
  ⟨le_rfl, List.Subset.refl _, fun h => ⟨h, rfl, rfl⟩⟩

theorem Progress.trans {s t u : Exec} (h : Progress s t) (h' : Progress t u) : Progress s u := by
  refine ⟨h.currentRound.trans h'.currentRound, List.Subset.trans h.sent h'.sent, fun hd => ?_⟩
  obtain ⟨hd', hvalue, hround⟩ := h.decided hd
  obtain ⟨hd'', hvalue', hround'⟩ := h'.decided hd'
  exact ⟨hd'', hvalue'.trans hvalue, hround'.trans hround⟩

section Moves
variable {c : Schain} {me : MessageEnvelope} {V : Value → Prop} {s s' : Exec}

theorem Move.currentRound (h : Move c me V s s') :
    s'.inst.currentRound = s.inst.currentRound ∨
      s'.inst.currentRound = s.inst.currentRound + 1 := by
  cases h with
  | nextRound v hv => exact .inr rfl
  | _ => exact .inl rfl

theorem Move.progress (h : Move c me V s s') : Progress s s' := by
  have base := Progress.refl s
  cases h with
  | nextRound v hv => exact {base with currentRound := Nat.le_succ _}
  | decide b hd => exact {base with decided := fun hd' => absurd (hd'.symm.trans hd) (by decide)}
  | sendValue | firstBinValue => exact {base with sent := List.subset_append_left ..}
  | _ => exact {base with}

theorem Moves.progress (h : Moves c me V s s') : Progress s s' := by
  induction h with
  | refl => exact .refl s
  | tail _ hmove ih => exact ih.trans hmove.progress

end Moves

/-! ### The invariant -/

namespace Exec
variable (s : Exec)

/-- How often a round was sent as AUX. -/
def auxCount (r : ℕ) : ℕ := s.sent.countP fun m => m.msgType = .auxBroadcast ∧ m.r = r

/-- How often a value was sent as BVB in a round. -/
def bvbCount (r : ℕ) (v : Value) : ℕ :=
  s.sent.countP fun m => m.msgType = .bvBroadcast ∧ m.r = r ∧ m.value = v

theorem auxCount_append (s s' : Exec) {m : Message} (h : s'.sent = s.sent ++ [m]) (r : ℕ) :
    s'.auxCount r = s.auxCount r + if m.msgType = .auxBroadcast ∧ m.r = r then 1 else 0 := by
  simp only [auxCount, h, List.countP_append, List.countP_singleton, decide_eq_true_eq]

theorem bvbCount_append (s s' : Exec) {m : Message} (h : s'.sent = s.sent ++ [m]) (r : ℕ)
    (v : Value) :
    s'.bvbCount r v =
      s.bvbCount r v + if m.msgType = .bvBroadcast ∧ m.r = r ∧ m.value = v then 1 else 0 := by
  simp only [bvbCount, h, List.countP_append, List.countP_singleton, decide_eq_true_eq]

end Exec

structure Orderly (s : Exec) : Prop where
  auxOnce : ∀ r, s.auxCount r ≤ 1
  /-- The AUX message of a round goes out with its first binary value. -/
  auxFirst : ∀ r, s.inst.binValues r = ∅ → s.auxCount r = 0
  bvbOnce : ∀ r b, s.bvbCount r (Value.ofBool b) ≤ 1
  bvbKnown : ∀ r b, Value.ofBool b ∉ s.inst.broadcastValues r → s.bvbCount r (Value.ofBool b) = 0
  undecided : s.inst.isDecided = false → s.reported = []
  decided : s.inst.isDecided = true →
    s.reported = [(s.inst.decidedValue, s.inst.decidedRound)] ∧
      s.inst.decidedRound ≤ s.inst.currentRound
  binary : DecidedBinary s
  followed : s.inst.isDecided = true → ∀ r, s.inst.decidedRound < r → r ≤ s.inst.currentRound →
    s.inst.proposals r = some s.inst.decidedValue

theorem Orderly.start (K : ProtocolKey) : Orderly (.start K) where
  auxOnce _ := Nat.zero_le 1
  auxFirst _ _ := rfl
  bvbOnce _ _ := Nat.zero_le 1
  bvbKnown _ _ _ := rfl
  undecided _ := rfl
  decided h := nomatch h
  binary h := nomatch h
  followed h := nomatch h

namespace Orderly
variable {c : Schain} {me : MessageEnvelope} {V : Value → Prop} {s s' : Exec}

theorem reported_length (h : Orderly s) : s.reported.length ≤ 1 := by
  cases hd : s.inst.isDecided with
  | false => simp [h.undecided hd]
  | true => simp [(h.decided hd).1]

theorem sendValue (h : Orderly s) {m : Message} (hnew : m.value ∉ s.inst.broadcastValues m.r) :
    Orderly (s.sendValue m) := by
  have hbvb := Exec.bvbCount_append s (s.sendValue m) rfl
  have haux := Exec.auxCount_append s (s.sendValue m) rfl
  refine {h with
    auxOnce := fun r => ?_
    auxFirst := fun r hempty => ?_
    bvbOnce := fun r b => ?_
    bvbKnown := fun r b hunknown => ?_}
  · rw [haux, if_neg (by simp)]
    exact h.auxOnce r
  · rw [haux, if_neg (by simp)]
    exact h.auxFirst r hempty
  · rw [hbvb]
    split_ifs with hsame
    · obtain ⟨-, rfl, hvalue⟩ := hsame
      rw [h.bvbKnown m.r b (hvalue ▸ hnew)]
    · exact h.bvbOnce r b
  · -- a value that is zero or one is remembered as it is
    have hstill : Value.ofBool b ∉ s.inst.broadcastValues r := by
      intro hmem
      apply hunknown
      show _ ∈ Function.update s.inst.broadcastValues m.r _ r
      by_cases hr : r = m.r
      · subst hr
        rw [Function.update_self]
        exact Finset.mem_insert_of_mem hmem
      · rwa [Function.update_of_ne hr]
    rw [hbvb, h.bvbKnown r b hstill, if_neg]
    rintro ⟨-, rfl, hvalue⟩
    apply hunknown
    show _ ∈ Function.update s.inst.broadcastValues m.r _ m.r
    rw [Function.update_self]
    have hself : Value.ofBool (m.value == 1) = Value.ofBool b := by
      change m.value = Value.ofBool b at hvalue
      rw [hvalue]
      cases b <;> rfl
    rw [hself]
    exact Finset.mem_insert_self _ _

theorem binValue (h : Orderly s) (r : ℕ) (v : Value) : Orderly (s.binValue r v) := by
  refine {h with auxFirst := fun r' hempty => h.auxFirst r' ?_}
  exact Finset.subset_empty.mp (hempty ▸ binValues_subset_insertIntoBinValues s.inst r r' v)

theorem firstBinValue (h : Orderly s) {r : ℕ} (v : Value) (hempty : s.inst.binValues r = ∅) :
    Orderly ((s.binValue r v).auxSelfVote c r v) := by
  have hbvb : ∀ r' v', ((s.binValue r v).auxSelfVote c r v).bvbCount r' v' = s.bvbCount r' v' := by
    intro r' v'
    rw [Exec.bvbCount_append s _ rfl, if_neg (fun hm => nomatch hm.1)]
    rfl
  have haux := Exec.auxCount_append s ((s.binValue r v).auxSelfVote c r v) rfl
  refine {h with
    auxOnce := fun r' => ?_
    auxFirst := fun r' hempty' => ?_
    bvbOnce := fun r' b => ?_
    bvbKnown := fun r' b hunknown => ?_}
  · rw [haux]
    split_ifs with hsame
    · obtain ⟨-, rfl⟩ := hsame
      exact (congrArg (· + 1) (h.auxFirst r hempty)).le
    · exact h.auxOnce r'
  · have hmem : r' ≠ r := by
      rintro rfl
      have hv : v ∈ ((s.binValue r' v).auxSelfVote c r' v).inst.binValues r' := by
        show v ∈ Function.update s.inst.binValues r' _ r'
        rw [Function.update_self]
        exact Finset.mem_insert_self v _
      rw [hempty'] at hv
      exact Finset.notMem_empty v hv
    rw [haux, if_neg (fun hsame => hmem hsame.2.symm)]
    exact (h.binValue r v).auxFirst r' hempty'
  · rw [hbvb]
    exact h.bvbOnce r' b
  · rw [hbvb]
    exact h.bvbKnown r' b hunknown

theorem decide (h : Orderly s) (hd : s.inst.isDecided = false) (b : Bool) :
    Orderly (s.decided b) where
  auxOnce := h.auxOnce
  auxFirst := h.auxFirst
  bvbOnce := h.bvbOnce
  bvbKnown := h.bvbKnown
  undecided hd' := nomatch hd'
  decided _ := ⟨congrArg (· ++ [_]) (h.undecided hd), le_rfl⟩
  binary _ := Value.isBinary_ofBool b
  followed _ _ hlt hle := absurd hlt (Nat.not_lt.mpr hle)

theorem nextRound (h : Orderly s) {v : Value}
    (hv : s.inst.isDecided = true → v = s.inst.decidedValue) : Orderly (s.nextRound v) := by
  refine {h with
    decided := fun hd => ⟨(h.decided hd).1, Nat.le_succ_of_le (h.decided hd).2⟩
    followed := fun hd r hlt hle => ?_}
  show Function.update s.inst.proposals (s.inst.currentRound + 1) (some v) r = _
  by_cases hr : r = s.inst.currentRound + 1
  · subst hr
    rw [Function.update_self, hv hd]
    rfl
  · rw [Function.update_of_ne hr]
    exact h.followed hd r hlt (Nat.le_of_lt_succ (lt_of_le_of_ne hle hr))

theorem propose (h : Orderly s) (v : Value) : Orderly (s.propose v) := by
  refine {h with followed := fun hd r hlt hle => ?_}
  show Function.update s.inst.proposals 0 (some v) r = _
  -- a round after the decision's is not the first
  rw [Function.update_of_ne (Nat.ne_zero_of_lt hlt)]
  exact h.followed hd r hlt hle

theorem move (h : Orderly s) (hmove : Move c me V s s') : Orderly s' := by
  cases hmove with
  | sendValue m hm hnew => exact h.sendValue hnew
  | firstBinValue r v hv hempty => exact h.firstBinValue v hempty
  | binValue r v hv hne => exact h.binValue r v
  | decide b hd => exact h.decide hd b
  | nextRound v hv => exact h.nextRound hv
  | propose v => exact h.propose v
  | _ => exact {h with}

theorem moves (h : Orderly s) (hmoves : Moves c me V s s') : Orderly s' := by
  induction hmoves with
  | refl => exact h
  | tail _ hmove ih => exact ih.move hmove

end Orderly

/-! ### Any envelopes -/

/-- An instance is handed an envelope; what its handler throws is logged. -/
def handle (c : Schain) (s : Exec) (me : MessageEnvelope) : Exec :=
  finalState (processMessage c me) s

section Envelopes
variable {c : Schain} {s : Exec}

theorem Orderly.handle (h : Orderly s) (me : MessageEnvelope) : Orderly (handle c s me) :=
  h.moves (processMessage_sound (V := Meant me) (fun _ => .inl) (.inr rfl) h.binary).moves

theorem Orderly.handleAll (h : Orderly s) (envelopes : List MessageEnvelope) :
    Orderly (envelopes.foldl (BinConsensus.handle c) s) := by
  induction envelopes generalizing s with
  | nil => exact h
  | cons me rest ih => exact ih (h.handle me)

end Envelopes

/-- An instance that has been handed any envelopes is handed one more. It moves from round to
round, one at a time; what it has sent by then is one AUX message a round and one BVB message
a round and value; its decision is its first and stays, and every later round was entered
with it; and none of the checks on the order throws. -/
theorem instance_keeps_order (c : Schain) (K : ProtocolKey) (envelopes : List MessageEnvelope)
    (me : MessageEnvelope) :
    let s := envelopes.foldl (handle c) (.start K)
    let s' := handle c s me
    (Moves c me (Meant me) s s' ∧ s.inst.currentRound ≤ s'.inst.currentRound ∧
      ∀ x y, Move c me (Meant me) x y → y.inst.currentRound = x.inst.currentRound ∨
        y.inst.currentRound = x.inst.currentRound + 1) ∧
    (∀ r, s'.auxCount r ≤ 1) ∧ (∀ r b, s'.bvbCount r (Value.ofBool b) ≤ 1) ∧
    s'.reported.length ≤ 1 ∧
    (s.inst.isDecided = true → s'.inst.isDecided = true ∧
      s'.inst.decidedValue = s.inst.decidedValue) ∧
    (s'.inst.isDecided = true → ∀ r, s'.inst.decidedRound < r → r ≤ s'.inst.currentRound →
      s'.inst.proposals r = some s'.inst.decidedValue) ∧
    ∀ e t, (processMessage c me).run s = .error e t → e ∉ orderChecks := by
  intro s s'
  have hs : Orderly s := (Orderly.start K).handleAll envelopes
  have hs' : Orderly s' := hs.handle me
  have hsound : Sound c me (Meant me) s ((processMessage c me).run s) :=
    processMessage_sound (fun _ => .inl) (.inr rfl) hs.binary
  have hprogress : Progress s s' := hsound.moves.progress
  refine ⟨⟨hsound.moves, hprogress.currentRound, fun x y hmove => hmove.currentRound⟩, hs'.auxOnce,
    hs'.bvbOnce, hs'.reported_length, fun hd => ?_, hs'.followed, fun e t hrun => ?_⟩
  · obtain ⟨hd', hvalue, -⟩ := hprogress.decided hd
    exact ⟨hd', hvalue⟩
  · rw [hrun] at hsound
    exact hsound.2

end SkaleConsensus.BinConsensus
