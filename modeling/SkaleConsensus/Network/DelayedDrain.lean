import SkaleConsensus.Network.DelayedSends

/-! One pass over the messages that could not be sent.

`trySendingDelayedSends` is meant to send to each destination until its queue is empty or a message
fails. But the `break` behind the comment "could not send a message to this host" is reached after
every message, sent or not. So a pass sends at most one message to each destination, and the queues
are as they should be exactly if no more than one would have been sent
(`drains_iff_one_accepted`). -/
namespace SkaleConsensus.Network
open Library

section Call
variable (nodeCount : ℕ) (me : SchainIndex) (sendMessage : Delayed → Bool)

def SendLoop.next : SendLoop → Option SendEvent
  | .idle => none
  | .visiting _ => some .peek
  | .holding e => some (.send (sendMessage e))
  | .removing _ => some .pop

/-- The loop alone, for at most so many steps; `none` if it did not end. -/
def finish : ℕ → SendState → Option SendState
  | 0, _ => none
  | fuel + 1, s =>
    match s.loop.next sendMessage with
    | none => some s
    | some event => ((delayedSender nodeCount me).step event s).bind (finish fuel)

/-- A call of `trySendingDelayedSends` during which nothing is appended; there are at most three
steps for each destination. -/
def callAlone (s : SendState) : Option SendState :=
  ((delayedSender nodeCount me).step .trySendingDelayedSends s).bind
    (finish nodeCount me sendMessage (3 * nodeCount + 1))

def destinations : List ℕ := (List.range nodeCount).filter (· != me - 1)

/-- What a call should do: to each destination it sends up to the first message that fails, in
order, and leaves the others queued. -/
def Drains (s s' : SendState) : Prop :=
  ∃ sentNow : List Delayed, s'.sent = sentNow.reverse ++ s.sent ∧ ∀ i ∈ destinations nodeCount me,
    sentNow.filter (·.dst == i) = (s.delayedSends i).takeWhile sendMessage ∧
    s'.delayedSends i = (s.delayedSends i).dropWhile sendMessage

/-! ### One destination -/

def sentOf (queue : List Delayed) : List Delayed := (queue.take 1).filter sendMessage

def visit (s : SendState) (i : ℕ) : SendState :=
  {s with
    delayedSends := Function.update s.delayedSends i
      ((s.delayedSends i).drop (sentOf sendMessage (s.delayedSends i)).length)
    sent := (sentOf sendMessage (s.delayedSends i)).reverse ++ s.sent
    popped := (sentOf sendMessage (s.delayedSends i)).reverse ++ s.popped }

end Call

section Loop
variable {nodeCount i : ℕ} {me : SchainIndex} {sendMessage : Delayed → Bool} {s : SendState}

theorem goTo_of_le (h : nodeCount ≤ i) : goTo nodeCount me i = .idle := by
  have hnone : ((List.range nodeCount).find? fun j => decide (i ≤ j) && j != me - 1) = none := by
    rw [List.find?_eq_none]
    intro j hj
    have hlt := List.mem_range.mp hj
    simp only [Bool.and_eq_true, decide_eq_true_eq, not_and]
    omega
  unfold goTo
  rw [hnone]

theorem goTo_of_ne (hi : i < nodeCount) (hne : i ≠ me - 1) :
    goTo nodeCount me i = .visiting i := by
  have hfound : ((List.range nodeCount).find? fun j => decide (i ≤ j) && j != me - 1) = some i := by
    rw [List.find?_range_eq_some]
    refine ⟨by simp [hne], List.mem_range.mpr hi, fun j hj => ?_⟩
    simp [Nat.not_le.mpr hj]
  unfold goTo
  rw [hfound]

/-- The node itself is passed over. -/
theorem goTo_self (h : i = me - 1) : goTo nodeCount me i = goTo nodeCount me (i + 1) := by
  have hsame : (fun j => decide (i ≤ j) && j != me - 1) =
      fun j => decide (i + 1 ≤ j) && j != me - 1 := by
    funext j
    rw [← h, Bool.eq_iff_iff]
    simp only [Bool.and_eq_true, decide_eq_true_eq, bne_iff_ne]
    omega
  unfold goTo
  rw [hsame]

/-- More fuel does not change the result. -/
theorem finish_succ {fuel : ℕ} {s' : SendState}
    (h : finish nodeCount me sendMessage fuel s = some s') :
    finish nodeCount me sendMessage (fuel + 1) s = some s' := by
  induction fuel generalizing s with
  | zero => cases h
  | succ fuel ih =>
    unfold finish at h ⊢
    cases hnext : s.loop.next sendMessage with
    | none =>
      rw [hnext] at h
      exact h
    | some event =>
      rw [hnext] at h
      obtain ⟨mid, hstep, hrest⟩ := Option.bind_eq_some_iff.mp h
      exact Option.bind_eq_some_iff.mpr ⟨mid, hstep, ih hrest⟩

theorem visit_of_sentOf_nil (h : sentOf sendMessage (s.delayedSends i) = []) :
    visit sendMessage s i = s := by
  unfold visit
  rw [h, List.length_nil, List.drop_zero, Function.update_eq_self, List.reverse_nil,
    List.nil_append, List.nil_append]

/-- A destination takes at most three steps. -/
theorem finish_visiting {fuel : ℕ} {s' : SendState} (hdst : ∀ e ∈ s.delayedSends i, e.dst = i)
    (h : finish nodeCount me sendMessage fuel
      {visit sendMessage s i with loop := goTo nodeCount me (i + 1)} = some s') :
    finish nodeCount me sendMessage (fuel + 3) {s with loop := .visiting i} = some s' := by
  cases hqueue : s.delayedSends i with
  | nil =>
    rw [visit_of_sentOf_nil (by rw [hqueue]; rfl)] at h
    simp only [finish, SendLoop.next, delayedSender, hqueue, Option.bind_some]
    exact finish_succ (finish_succ h)
  | cons first rest =>
    have hfirst : first.dst = i := hdst first (hqueue ▸ List.mem_cons_self)
    cases hsend : sendMessage first with
    | false =>
      rw [visit_of_sentOf_nil (by rw [hqueue]; simp [sentOf, hsend])] at h
      simp only [finish, SendLoop.next, delayedSender, hqueue, Option.bind_some, hsend, hfirst]
      exact finish_succ h
    | true =>
      have hvisit : visit sendMessage s i = {s with
          delayedSends := Function.update s.delayedSends i rest
          sent := first :: s.sent
          popped := first :: s.popped } := by
        unfold visit
        rw [hqueue]
        simp [sentOf, hsend]
      rw [hvisit] at h
      simp only [finish, SendLoop.next, delayedSender, hqueue, Option.bind_some, hsend, hfirst,
        if_true]
      exact h

theorem dst_visit (hdst : ∀ i, ∀ e ∈ s.delayedSends i, e.dst = i) (j : ℕ) :
    ∀ i, ∀ e ∈ (visit sendMessage s j).delayedSends i, e.dst = i := by
  intro i e he
  unfold visit at he
  dsimp only at he
  by_cases hij : i = j
  · subst hij
    rw [Function.update_self] at he
    exact hdst i e (List.mem_of_mem_drop he)
  · rw [Function.update_of_ne hij] at he
    exact hdst i e he

theorem finish_goTo (hdst : ∀ i, ∀ e ∈ s.delayedSends i, e.dst = i) {left : ℕ}
    (hleft : i + left = nodeCount) :
    finish nodeCount me sendMessage (3 * left + 1) {s with loop := goTo nodeCount me i} =
      some {((List.range' i left).filter (· != me - 1)).foldl (visit sendMessage) s with
        loop := .idle } := by
  induction left generalizing i s with
  | zero =>
    have hend : nodeCount ≤ i := hleft.ge
    rw [goTo_of_le hend]
    rfl
  | succ left ih =>
    rw [List.range'_succ]
    by_cases hself : i = me - 1
    · rw [goTo_self hself, List.filter_cons_of_neg (by simp [hself])]
      exact finish_succ (finish_succ (finish_succ (ih hdst (by omega))))
    · rw [goTo_of_ne (by omega) hself, List.filter_cons_of_pos (by simpa using hself),
        List.foldl_cons]
      exact finish_visiting (hdst i) (ih (dst_visit hdst i) (by omega))

end Loop

/-! ### All destinations -/

section Passes
variable {sendMessage : Delayed → Bool} {s : SendState} {is : List ℕ}

/-- Visits of different destinations do not interfere. -/
theorem delayedSends_foldl_visit (hnodup : is.Nodup) (i : ℕ) :
    (is.foldl (visit sendMessage) s).delayedSends i =
      if i ∈ is then (s.delayedSends i).drop (sentOf sendMessage (s.delayedSends i)).length
      else s.delayedSends i := by
  induction is generalizing s with
  | nil => rfl
  | cons j is ih =>
    obtain ⟨hnot, hnodup⟩ := List.nodup_cons.mp hnodup
    rw [List.foldl_cons, ih hnodup]
    by_cases hij : i = j
    · subst hij
      rw [if_neg hnot, if_pos List.mem_cons_self]
      exact Function.update_self ..
    · have hsame : (visit sendMessage s j).delayedSends i = s.delayedSends i :=
        Function.update_of_ne hij ..
      simp only [hsame, List.mem_cons, hij, false_or]

theorem sent_foldl_visit (hnodup : is.Nodup) :
    (is.foldl (visit sendMessage) s).sent =
      (is.flatMap fun i => sentOf sendMessage (s.delayedSends i)).reverse ++ s.sent := by
  induction is generalizing s with
  | nil => rfl
  | cons j is ih =>
    obtain ⟨hnot, hnodup⟩ := List.nodup_cons.mp hnodup
    have hsame : ∀ i ∈ is, (visit sendMessage s j).delayedSends i = s.delayedSends i :=
      fun i hi => Function.update_of_ne (fun hij : i = j => hnot (hij ▸ hi)) ..
    have hsent : (visit sendMessage s j).sent =
        (sentOf sendMessage (s.delayedSends j)).reverse ++ s.sent := rfl
    rw [List.foldl_cons, ih hnodup, List.flatMap_cons, List.reverse_append, List.append_assoc,
      hsent, List.flatMap_congr fun i hi => congrArg (sentOf sendMessage) (hsame i hi)]

theorem filter_flatMap_sentOf (hdst : ∀ i, ∀ e ∈ s.delayedSends i, e.dst = i) (hnodup : is.Nodup)
    {i : ℕ} (hi : i ∈ is) :
    (is.flatMap fun j => sentOf sendMessage (s.delayedSends j)).filter (·.dst == i) =
      sentOf sendMessage (s.delayedSends i) := by
  have hof : ∀ j, ∀ e ∈ sentOf sendMessage (s.delayedSends j), e.dst = j := fun j e he =>
    hdst j e (List.mem_of_mem_take (List.mem_of_mem_filter he))
  induction is with
  | nil => cases hi
  | cons j is ih =>
    obtain ⟨hnot, hnodup⟩ := List.nodup_cons.mp hnodup
    rw [List.flatMap_cons, List.filter_append]
    rcases List.mem_cons.mp hi with rfl | hi
    · have hnone : (is.flatMap fun j => sentOf sendMessage (s.delayedSends j)).filter
          (·.dst == i) = [] := by
        rw [List.filter_eq_nil_iff]
        intro e he
        obtain ⟨j, hj, he⟩ := List.mem_flatMap.mp he
        rw [hof j e he, beq_iff_eq]
        exact fun heq => hnot (heq ▸ hj)
      rw [hnone, List.append_nil, List.filter_eq_self]
      exact fun e he => beq_iff_eq.mpr (hof i e he)
    · have hnone : (sentOf sendMessage (s.delayedSends j)).filter (·.dst == i) = [] := by
        rw [List.filter_eq_nil_iff]
        intro e he
        rw [hof j e he, beq_iff_eq]
        exact fun heq => hnot (heq ▸ hi)
      rw [hnone, List.nil_append, ih hnodup hi]

theorem drained_iff (queue : List Delayed) :
    (sentOf sendMessage queue = queue.takeWhile sendMessage ∧
      queue.drop (sentOf sendMessage queue).length = queue.dropWhile sendMessage) ↔
    (queue.takeWhile sendMessage).length ≤ 1 := by
  cases queue with
  | nil => exact iff_of_true ⟨rfl, rfl⟩ (Nat.zero_le 1)
  | cons first rest =>
    cases hsend : sendMessage first with
    | false => simp [sentOf, hsend]
    | true =>
      have hsent : sentOf sendMessage (first :: rest) = [first] := by simp [sentOf, hsend]
      rw [hsent, List.takeWhile_cons_of_pos hsend, List.dropWhile_cons_of_pos hsend]
      cases rest with
      | nil => simp
      | cons second rest => cases hsecond : sendMessage second <;> simp [hsecond]

end Passes

/-- The call ends. It drains the queues as it should exactly if of none of them more than one
message would be sent. -/
theorem drains_iff_one_accepted (nodeCount : ℕ) (me : SchainIndex) (sendMessage : Delayed → Bool)
    (s : SendState) (hidle : s.loop = .idle) (hdst : ∀ i, ∀ e ∈ s.delayedSends i, e.dst = i) :
    ∃ s', callAlone nodeCount me sendMessage s = some s' ∧
      (Drains nodeCount me sendMessage s s' ↔ ∀ i ∈ destinations nodeCount me,
        ((s.delayedSends i).takeWhile sendMessage).length ≤ 1) := by
  have hnodup : (destinations nodeCount me).Nodup := List.nodup_range.filter _
  have hcall : callAlone nodeCount me sendMessage s =
      some {(destinations nodeCount me).foldl (visit sendMessage) s with loop := .idle} := by
    unfold callAlone destinations
    simp only [delayedSender, hidle, Option.bind_some, List.range_eq_range']
    exact finish_goTo hdst (Nat.zero_add nodeCount)
  refine ⟨_, hcall, ?_⟩
  have hsent := @sent_foldl_visit sendMessage s _ hnodup
  unfold Drains
  dsimp only
  rw [hsent]
  constructor
  · rintro ⟨sentNow, hsame, hqueues⟩ i hi
    obtain ⟨hsentTo, hleft⟩ := hqueues i hi
    rw [List.append_cancel_right_eq, List.reverse_inj] at hsame
    rw [← hsame, filter_flatMap_sentOf hdst hnodup hi] at hsentTo
    rw [delayedSends_foldl_visit hnodup, if_pos hi] at hleft
    exact (drained_iff _).mp ⟨hsentTo, hleft⟩
  · intro hshort
    refine ⟨_, rfl, fun i hi => ?_⟩
    rw [filter_flatMap_sentOf hdst hnodup hi, delayedSends_foldl_visit hnodup, if_pos hi]
    exact (drained_iff _).mpr (hshort i hi)

/-! ### Two passes -/

/-- Messages that the second of two nodes missed. -/
def missed (count : ℕ) : SendState where
  delayedSends := Function.update (fun _ => []) 1
    ((List.range count).map fun ticket => ⟨1, ticket, .first⟩)
  loop := .idle
  appended := ((List.range count).map fun ticket => ⟨1, ticket, .first⟩).reverse
  sent := []
  popped := []
  evicted := []

theorem dst_missed (count i : ℕ) : ∀ e ∈ (missed count).delayedSends i, e.dst = i := by
  intro e he
  unfold missed at he
  dsimp only at he
  by_cases hi : i = 1
  · subst hi
    rw [Function.update_self] at he
    obtain ⟨ticket, -, rfl⟩ := List.mem_map.mp he
    rfl
  · rw [Function.update_of_ne hi] at he
    cases he

theorem drains_missed_one :
    ∃ s', callAlone 2 1 (fun _ => true) (missed 1) = some s' ∧
      Drains 2 1 (fun _ => true) (missed 1) s' := by
  obtain ⟨s', hcall, hiff⟩ :=
    drains_iff_one_accepted 2 1 (fun _ => true) (missed 1) rfl (dst_missed 1)
  exact ⟨s', hcall, hiff.mpr (by decide)⟩

/-- Both messages could be sent; the call sends the first and returns. -/
theorem second_message_left :
    ∃ s', callAlone 2 1 (fun _ => true) (missed 2) = some s' ∧
      s'.sent.map Delayed.ticket = [0] ∧ (s'.delayedSends 1).map Delayed.ticket = [1] ∧
      ¬ Drains 2 1 (fun _ => true) (missed 2) s' := by
  obtain ⟨s', hcall, hsent, hleft⟩ : ∃ s', callAlone 2 1 (fun _ => true) (missed 2) = some s' ∧
      s'.sent.map Delayed.ticket = [0] ∧ (s'.delayedSends 1).map Delayed.ticket = [1] :=
    ⟨_, rfl, rfl, rfl⟩
  refine ⟨s', hcall, hsent, hleft, ?_⟩
  rintro ⟨sentNow, -, hqueues⟩
  have hempty := (hqueues 1 (by decide)).2
  rw [hempty] at hleft
  exact absurd hleft (by decide)

end SkaleConsensus.Network
