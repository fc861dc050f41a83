import SkaleConsensus.Network.Message

/-! Messages that could not be sent at once.

Each destination has a queue of at most `MAX_DELAYED_MESSAGE_SENDS` messages; a message that is
appended to a full queue evicts the first. One thread goes through the destinations: it looks at
the first message under the lock of the queue, sends it without the lock, and if that succeeds
takes the lock again and removes the first message.

That is the message it sent, unless an append evicted it in between; then a message is removed
that was never sent (`unsent_message_removed`). `accounted_iff_undisturbed` says that nothing else
goes wrong. -/
namespace SkaleConsensus.Network
open Library

def MAX_DELAYED_MESSAGE_SENDS : ℕ := 128

/-- An entry of the queue with the number `dst`; no two have the same ticket. -/
structure Delayed where
  dst : ℕ
  ticket : ℕ
  msg : NetworkMessage
deriving DecidableEq

/-- Where `trySendingDelayedSends` is. -/
inductive SendLoop where
  | idle
  /-- It is about to look at a queue. -/
  | visiting (i : ℕ)
  | holding (e : Delayed)
  /-- `sendMessage` returned true. -/
  | removing (e : Delayed)
deriving DecidableEq

/-- The message that was looked at and is not done with. -/
def SendLoop.held : SendLoop → Option Delayed
  | .idle | .visiting _ => none
  | .holding e | .removing e => some e

structure SendState where
  delayedSends : ℕ → List Delayed
  loop : SendLoop
  appended : List Delayed
  sent : List Delayed
  /-- What the loop removed. -/
  popped : List Delayed
  /-- What an append removed, and how many messages the queue had then. -/
  evicted : List (Delayed × ℕ)

def addToDelayedSends (dst : ℕ) (msg : NetworkMessage) (s : SendState) : SendState :=
  let e : Delayed := ⟨dst, s.appended.length, msg⟩
  let queue := s.delayedSends dst ++ [e]
  if queue.length > MAX_DELAYED_MESSAGE_SENDS then
    {s with
      appended := e :: s.appended
      delayedSends := Function.update s.delayedSends dst queue.tail
      evicted := (queue.head?.toList.map fun first => (first, queue.length)) ++ s.evicted }
  else
    {s with
      appended := e :: s.appended
      delayedSends := Function.update s.delayedSends dst queue }

/-- The next destination from `i` on; the node does not send to itself. -/
def goTo (nodeCount : ℕ) (me : SchainIndex) (i : ℕ) : SendLoop :=
  match (List.range nodeCount).find? fun j => decide (i ≤ j) && j != me - 1 with
  | some j => .visiting j
  | none => .idle

inductive SendEvent where
  | addToDelayedSends (dst : ℕ) (msg : NetworkMessage)
  | trySendingDelayedSends
  | peek
  /-- What `sendMessage` returns. -/
  | send (delivered : Bool)
  | pop

/-- Every event that takes a lock is one step. Removing from an empty queue is undefined. -/
def delayedSender (nodeCount : ℕ) (me : SchainIndex) : Machine SendState SendEvent where
  initial := ⟨fun _ => [], .idle, [], [], [], []⟩
  step
    | .addToDelayedSends dst msg, s =>
      if dst < nodeCount then some (addToDelayedSends dst msg s) else none
    | .trySendingDelayedSends, s =>
      match s.loop with
      | .idle => some {s with loop := goTo nodeCount me 0}
      | _ => none
    | .peek, s =>
      match s.loop with
      | .visiting i =>
        match s.delayedSends i with
        | first :: _ => some {s with loop := .holding first}
        | [] => some {s with loop := goTo nodeCount me (i + 1)}
      | _ => none
    | .send delivered, s =>
      match s.loop with
      | .holding e =>
        if delivered then some {s with loop := .removing e, sent := e :: s.sent}
        else some {s with loop := goTo nodeCount me (e.dst + 1)}
      | _ => none
    | .pop, s =>
      match s.loop with
      | .removing e =>
        match s.delayedSends e.dst with
        | first :: rest =>
          some {s with
            delayedSends := Function.update s.delayedSends e.dst rest
            popped := first :: s.popped
            loop := goTo nodeCount me (e.dst + 1) }
        | [] => none
      | _ => none

namespace SendState

def Evicted (s : SendState) (e : Delayed) : Prop := ∃ n, (e, n) ∈ s.evicted

/-- No message is lost but by eviction from a full queue, and none is sent twice. -/
structure Accounted (s : SendState) : Prop where
  kept : ∀ e ∈ s.appended, e ∈ s.sent ∨ e ∈ s.delayedSends e.dst ∨
    ∃ n > MAX_DELAYED_MESSAGE_SENDS, (e, n) ∈ s.evicted
  popped : ∀ e ∈ s.popped, e ∈ s.sent
  once : s.sent.Nodup

/-! ### What holds of every run -/

structure Consistent (s : SendState) : Prop where
  numbered : ∀ e ∈ s.appended, e.ticket < s.appended.length
  covered : ∀ e ∈ s.appended, e ∈ s.popped ∨ e ∈ s.delayedSends e.dst ∨ s.Evicted e
  queued : ∀ i, ∀ e ∈ s.delayedSends i, e ∈ s.appended ∧ e.dst = i
  nodup : ∀ i, (s.delayedSends i).Nodup
  evicted : ∀ e n, (e, n) ∈ s.evicted →
    e ∈ s.appended ∧ e ∉ s.delayedSends e.dst ∧ n > MAX_DELAYED_MESSAGE_SENDS
  /-- What was sent is not in the queue, except while it is being removed. -/
  sent : ∀ e ∈ s.sent, e ∈ s.appended ∧ (e ∈ s.delayedSends e.dst → s.loop = .removing e)
  once : s.sent.Nodup
  /-- What is held is the first of its queue, or was evicted. -/
  held : ∀ e, s.loop.held = some e → e ∈ s.appended ∧
    (s.Evicted e ∨ (s.delayedSends e.dst).head? = some e)
  holding : ∀ e, s.loop = .holding e → e ∉ s.sent
  removing : ∀ e, s.loop = .removing e → e ∈ s.sent

variable {s s' : SendState} {nodeCount : ℕ} {me : SchainIndex}

/-- All that can fail is that a message is removed unsent. -/
theorem Consistent.accounted_iff (h : s.Consistent) :
    s.Accounted ↔ ∀ e ∈ s.popped, e ∈ s.sent := by
  refine ⟨Accounted.popped, fun hpopped => ⟨fun e he => ?_, hpopped, h.once⟩⟩
  rcases h.covered e he with hgone | hqueued | ⟨n, hn⟩
  · exact .inl (hpopped e hgone)
  · exact .inr (.inl hqueued)
  · exact .inr (.inr ⟨n, (h.evicted e n hn).2.2, hn⟩)

theorem held_goTo (i : ℕ) : (goTo nodeCount me i).held = none := by
  unfold goTo
  split <;> rfl

theorem goTo_ne {loop : SendLoop} {e : Delayed} (h : loop.held = some e) (i : ℕ) :
    goTo nodeCount me i ≠ loop := by
  rintro rfl
  cases (held_goTo i).symm.trans h

/-- The loop goes on to another destination. -/
theorem Consistent.leave (h : s.Consistent) (hloop : ∀ e, s.loop ≠ .removing e) (i : ℕ) :
    {s with loop := goTo nodeCount me i}.Consistent :=
  { h with
    sent := fun e he => ⟨(h.sent e he).1, fun hq => absurd ((h.sent e he).2 hq) (hloop e)⟩
    held := fun _ he => absurd rfl (goTo_ne he i)
    holding := fun _ he => absurd he (goTo_ne rfl i)
    removing := fun _ he => absurd he (goTo_ne rfl i) }

theorem Consistent.peek (h : s.Consistent) {i : ℕ} {first : Delayed} {rest : List Delayed}
    (hloop : s.loop = .visiting i) (hqueue : s.delayedSends i = first :: rest) :
    {s with loop := .holding first}.Consistent := by
  have hmem : first ∈ s.delayedSends i := by simp [hqueue]
  obtain ⟨happended, hdst⟩ := h.queued i first hmem
  have hnot : first ∉ s.sent := fun hsent => by
    cases hloop.symm.trans ((h.sent first hsent).2 (hdst ▸ hmem))
  have hvisiting : ∀ e, s.loop ≠ .removing e := fun e => by simp [hloop]
  exact
    { h with
      sent := fun e he => ⟨(h.sent e he).1, fun hq => absurd ((h.sent e he).2 hq) (hvisiting e)⟩
      held := fun e he => by
        cases he
        exact ⟨happended, .inr (by simp [hdst, hqueue])⟩
      holding := fun e he => by
        cases he
        exact hnot
      removing := nofun }

theorem Consistent.send (h : s.Consistent) {e : Delayed} (hloop : s.loop = .holding e) :
    {s with loop := .removing e, sent := e :: s.sent}.Consistent := by
  have hheld := h.held e (by rw [hloop]; rfl)
  exact
    { h with
      sent := fun x hx => by
        rcases List.mem_cons.mp hx with rfl | hx
        · exact ⟨hheld.1, fun _ => rfl⟩
        · exact ⟨(h.sent x hx).1, fun hq => by cases hloop.symm.trans ((h.sent x hx).2 hq)⟩
      once := List.nodup_cons.mpr ⟨h.holding e hloop, h.once⟩
      held := fun x hx => by
        cases hx
        exact hheld
      holding := nofun
      removing := fun x hx => by
        cases hx
        exact List.mem_cons_self }

section Drop
variable {dst : ℕ} {first : Delayed} {rest : List Delayed}
  (hqueue : s.delayedSends dst = first :: rest)
include hqueue

/-- A queue that loses its first message gets no other. -/
theorem mem_of_mem_drop {j : ℕ} {x : Delayed}
    (hx : x ∈ Function.update s.delayedSends dst rest j) : x ∈ s.delayedSends j := by
  by_cases hj : j = dst
  · subst hj
    rw [Function.update_self] at hx
    exact hqueue ▸ List.mem_cons_of_mem first hx
  · rwa [Function.update_of_ne hj] at hx

theorem mem_drop {x : Delayed} (hx : x ∈ s.delayedSends x.dst) :
    x = first ∨ x ∈ Function.update s.delayedSends dst rest x.dst := by
  by_cases hj : x.dst = dst
  · rw [hj, hqueue] at hx
    rw [hj, Function.update_self]
    exact List.mem_cons.mp hx
  · rw [Function.update_of_ne hj]
    exact .inr hx

theorem nodup_drop (h : ∀ j, (s.delayedSends j).Nodup) (j : ℕ) :
    (Function.update s.delayedSends dst rest j).Nodup := by
  by_cases hj : j = dst
  · subst hj
    rw [Function.update_self]
    exact (List.nodup_cons.mp (hqueue ▸ h j)).2
  · rw [Function.update_of_ne hj]
    exact h j

theorem first_not_mem_drop (h : ∀ j, (s.delayedSends j).Nodup) :
    first ∉ Function.update s.delayedSends dst rest dst := by
  rw [Function.update_self]
  exact (List.nodup_cons.mp (hqueue ▸ h dst)).1

end Drop

section Pop
variable {e first : Delayed} {rest : List Delayed} (h : s.Consistent)
  (hloop : s.loop = .removing e) (hqueue : s.delayedSends e.dst = first :: rest)
include h hloop hqueue

/-- What is removed was sent exactly if it is what the loop holds. -/
theorem Consistent.first_mem_sent_iff : first ∈ s.sent ↔ ¬ s.Evicted e := by
  have hmem : first ∈ s.delayedSends e.dst := by simp [hqueue]
  constructor
  · rintro hsent ⟨n, hn⟩
    cases hloop.symm.trans ((h.sent first hsent).2 ((h.queued _ first hmem).2 ▸ hmem))
    exact (h.evicted e n hn).2.1 hmem
  · intro hnot
    have hhead := (h.held e (by rw [hloop]; rfl)).2.resolve_left hnot
    rw [hqueue, List.head?_cons, Option.some.injEq] at hhead
    exact hhead ▸ h.removing e hloop

theorem Consistent.pop (i : ℕ) :
    { s with
      delayedSends := Function.update s.delayedSends e.dst rest
      popped := first :: s.popped
      loop := goTo nodeCount me i }.Consistent := by
  refine
    { h with
      covered := fun x hx => ?_
      queued := fun j x hx => h.queued j x (mem_of_mem_drop hqueue hx)
      nodup := nodup_drop hqueue h.nodup
      evicted := fun x n hx => (h.evicted x n hx).imp_right fun hgone =>
        hgone.imp_left fun hnot hq => hnot (mem_of_mem_drop hqueue hq)
      sent := fun x hx => ⟨(h.sent x hx).1, fun hq => ?_⟩
      held := fun _ hx => absurd rfl (goTo_ne hx i)
      holding := fun _ hx => absurd hx (goTo_ne rfl i)
      removing := fun _ hx => absurd hx (goTo_ne rfl i) }
  · rcases h.covered x hx with hgone | hqueued | hevicted
    · exact .inl (List.mem_cons_of_mem _ hgone)
    · rcases mem_drop hqueue hqueued with rfl | hkept
      · exact .inl List.mem_cons_self
      · exact .inr (.inl hkept)
    · exact .inr (.inr hevicted)
  · -- the message in hand is the first of its queue or no longer in it
    cases hloop.symm.trans ((h.sent x hx).2 (mem_of_mem_drop hqueue hq))
    rcases (h.held e (by rw [hloop]; rfl)).2 with ⟨n, hn⟩ | hhead
    · exact absurd (mem_of_mem_drop hqueue hq) (h.evicted e n hn).2.1
    · rw [hqueue, List.head?_cons, Option.some.injEq] at hhead
      subst hhead
      exact absurd hq (first_not_mem_drop hqueue h.nodup)

end Pop

section Add
variable {dst : ℕ}

theorem Consistent.append (h : s.Consistent) (dst : ℕ) (msg : NetworkMessage) :
    { s with
      appended := ⟨dst, s.appended.length, msg⟩ :: s.appended
      delayedSends := Function.update s.delayedSends dst
        (s.delayedSends dst ++ [(⟨dst, s.appended.length, msg⟩ : Delayed)]) }.Consistent := by
  generalize hnew : (⟨dst, s.appended.length, msg⟩ : Delayed) = new
  have hfresh : new ∉ s.appended := fun hmem => by
    have := h.numbered _ hmem
    rw [← hnew] at this
    exact Nat.lt_irrefl _ this
  have hmem : ∀ j x, x ∈ Function.update s.delayedSends dst (s.delayedSends dst ++ [new]) j ↔
      x ∈ s.delayedSends j ∨ j = dst ∧ x = new := by
    intro j x
    by_cases hj : j = dst
    · subst hj
      simp
    · simp [hj]
  have hdst : new.dst = dst := by rw [← hnew]
  refine
    { h with
      numbered := fun x hx => ?_
      covered := fun x hx => ?_
      queued := fun j x hx => ?_
      nodup := fun j => ?_
      evicted := fun x n hx => ⟨List.mem_cons_of_mem _ (h.evicted x n hx).1, fun hq => ?_,
        (h.evicted x n hx).2.2⟩
      sent := fun x hx => ⟨List.mem_cons_of_mem _ (h.sent x hx).1, fun hq => ?_⟩
      held := fun x hx => ⟨List.mem_cons_of_mem _ (h.held x hx).1, ?_⟩ }
  · rcases List.mem_cons.mp hx with rfl | hx
    · rw [← hnew]
      exact Nat.lt_succ_self _
    · exact (h.numbered x hx).trans (Nat.lt_succ_self _)
  · rcases List.mem_cons.mp hx with rfl | hx
    · exact .inr (.inl ((hmem _ _).mpr (.inr ⟨hdst, rfl⟩)))
    · exact (h.covered x hx).imp_right fun hor => hor.imp_left fun hq => (hmem _ _).mpr (.inl hq)
  · rcases (hmem j x).mp hx with hx | ⟨rfl, rfl⟩
    · exact (h.queued j x hx).imp_left (List.mem_cons_of_mem _)
    · exact ⟨List.mem_cons_self, hdst⟩
  · dsimp only
    by_cases hj : j = dst
    · subst hj
      rw [Function.update_self]
      exact List.nodup_append.mpr ⟨h.nodup j, List.nodup_singleton _, fun x hx y hy => by
        rw [List.mem_singleton] at hy
        rintro rfl
        exact hfresh (hy ▸ (h.queued j x hx).1)⟩
    · rw [Function.update_of_ne hj]
      exact h.nodup j
  · rcases (hmem _ x).mp hq with hq | ⟨-, rfl⟩
    · exact (h.evicted x n hx).2.1 hq
    · exact hfresh (h.evicted x n hx).1
  · rcases (hmem _ x).mp hq with hq | ⟨-, rfl⟩
    · exact (h.sent x hx).2 hq
    · exact absurd (h.sent x hx).1 hfresh
  · refine (h.held x hx).2.imp_right fun hhead => ?_
    by_cases hj : x.dst = dst
    · rw [hj] at hhead ⊢
      show (Function.update s.delayedSends dst (s.delayedSends dst ++ [new]) dst).head? = _
      rw [Function.update_self, List.head?_append, hhead]
      rfl
    · simpa [Function.update_of_ne hj] using hhead

theorem Consistent.evict (h : s.Consistent) {first : Delayed} {rest : List Delayed}
    (hqueue : s.delayedSends dst = first :: rest) {n : ℕ} (hn : n > MAX_DELAYED_MESSAGE_SENDS) :
    { s with
      delayedSends := Function.update s.delayedSends dst rest
      evicted := (first, n) :: s.evicted }.Consistent := by
  obtain ⟨hfirst, hdst⟩ := h.queued dst first (by simp [hqueue])
  refine
    { h with
      covered := fun x hx => ?_
      queued := fun j x hx => h.queued j x (mem_of_mem_drop hqueue hx)
      nodup := nodup_drop hqueue h.nodup
      evicted := fun x k hx => ?_
      sent := fun x hx => (h.sent x hx).imp_right fun hloop hq => hloop (mem_of_mem_drop hqueue hq)
      held := fun x hx => (h.held x hx).imp_right fun hor => ?_ }
  · rcases h.covered x hx with hgone | hqueued | ⟨k, hk⟩
    · exact .inl hgone
    · rcases mem_drop hqueue hqueued with rfl | hkept
      · exact .inr (.inr ⟨n, List.mem_cons_self⟩)
      · exact .inr (.inl hkept)
    · exact .inr (.inr ⟨k, List.mem_cons_of_mem _ hk⟩)
  · rcases List.mem_cons.mp hx with heq | hx
    · cases heq
      refine ⟨hfirst, ?_, hn⟩
      rw [hdst]
      exact first_not_mem_drop hqueue h.nodup
    · exact (h.evicted x k hx).imp_right fun hgone =>
        hgone.imp_left fun hnot hq => hnot (mem_of_mem_drop hqueue hq)
  · rcases hor with ⟨k, hk⟩ | hhead
    · exact .inl ⟨k, List.mem_cons_of_mem _ hk⟩
    · by_cases hj : x.dst = dst
      · rw [hj, hqueue, List.head?_cons, Option.some.injEq] at hhead
        exact .inl ⟨n, hhead ▸ List.mem_cons_self⟩
      · exact .inr (by simpa [Function.update_of_ne hj] using hhead)

theorem Consistent.add (h : s.Consistent) (dst : ℕ) (msg : NetworkMessage) :
    (addToDelayedSends dst msg s).Consistent := by
  have happend := h.append dst msg
  unfold addToDelayedSends
  dsimp only
  split_ifs with hfull
  · cases hqueue : s.delayedSends dst with
    | nil => simp [hqueue, MAX_DELAYED_MESSAGE_SENDS] at hfull
    | cons first rest =>
      have hnew : Function.update s.delayedSends dst
          (s.delayedSends dst ++ [(⟨dst, s.appended.length, msg⟩ : Delayed)]) dst =
          first :: (rest ++ [(⟨dst, s.appended.length, msg⟩ : Delayed)]) := by
        simp [hqueue]
      have hevict := happend.evict hnew hfull
      simpa [hqueue] using hevict
  · exact happend

end Add

theorem consistent_initial : (delayedSender nodeCount me).initial.Consistent where
  numbered := nofun
  covered := nofun
  queued := nofun
  nodup _ := List.nodup_nil
  evicted := nofun
  sent := nofun
  once := List.nodup_nil
  held := nofun
  holding := nofun
  removing := nofun

end SendState

/-- The message that was sent is still there when it is to be removed. -/
def SendEvent.Undisturbed (event : SendEvent) (s : SendState) : Prop :=
  match event, s.loop with
  | .pop, .removing e => ∀ n, (e, n) ∉ s.evicted
  | _, _ => True

section Step
variable {nodeCount : ℕ} {me : SchainIndex} {s s' : SendState}

/-- A step that removes nothing keeps the account. -/
theorem SendState.Consistent.keeps_accounted (h' : s'.Consistent) (haccounted : s.Accounted)
    (hpopped : s'.popped = s.popped) (hsent : s.sent ⊆ s'.sent) : s'.Accounted :=
  h'.accounted_iff.mpr fun e he => hsent (haccounted.popped e (hpopped ▸ he))

theorem SendState.Consistent.step (h : s.Consistent) (haccounted : s.Accounted) {event : SendEvent}
    (hstep : (delayedSender nodeCount me).step event s = some s') :
    s'.Consistent ∧ (s'.Accounted ↔ event.Undisturbed s) := by
  have hkeeps : s'.Consistent → s'.popped = s.popped → s.sent ⊆ s'.sent →
      s'.Consistent ∧ (s'.Accounted ↔ True) := fun h' hpopped hsent =>
    ⟨h', iff_of_true (h'.keeps_accounted haccounted hpopped hsent) trivial⟩
  cases event with
  | addToDelayedSends dst msg =>
    simp only [delayedSender, Option.ite_none_right_eq_some, Option.some.injEq] at hstep
    obtain ⟨-, rfl⟩ := hstep
    have hlogs : (Network.addToDelayedSends dst msg s).popped = s.popped ∧
        (Network.addToDelayedSends dst msg s).sent = s.sent := by
      unfold Network.addToDelayedSends
      dsimp only
      split_ifs <;> exact ⟨rfl, rfl⟩
    exact hkeeps (h.add dst msg) hlogs.1 (hlogs.2 ▸ List.Subset.refl _)
  | trySendingDelayedSends =>
    simp only [delayedSender] at hstep
    split at hstep
    · next hloop =>
      cases hstep
      exact hkeeps (h.leave (by simp [hloop]) 0) rfl (List.Subset.refl _)
    · cases hstep
  | peek =>
    simp only [delayedSender] at hstep
    split at hstep
    · next i hloop =>
      split at hstep
      · next first rest hqueue =>
        cases hstep
        exact hkeeps (h.peek hloop hqueue) rfl (List.Subset.refl _)
      · cases hstep
        exact hkeeps (h.leave (by simp [hloop]) (i + 1)) rfl (List.Subset.refl _)
    · cases hstep
  | send delivered =>
    simp only [delayedSender] at hstep
    split at hstep
    · next e hloop =>
      split_ifs at hstep with hdelivered
      · cases hstep
        exact hkeeps (h.send hloop) rfl (List.subset_cons_self _ _)
      · cases hstep
        exact hkeeps (h.leave (by simp [hloop]) (e.dst + 1)) rfl (List.Subset.refl _)
    · cases hstep
  | pop =>
    simp only [delayedSender] at hstep
    split at hstep
    · next e hloop =>
      split at hstep
      · next first rest hqueue =>
        cases hstep
        refine ⟨h.pop hloop hqueue (e.dst + 1), ?_⟩
        rw [(h.pop hloop hqueue (e.dst + 1)).accounted_iff]
        simp only [SendEvent.Undisturbed, hloop, List.forall_mem_cons]
        rw [h.first_mem_sent_iff hloop hqueue, SendState.Evicted, not_exists]
        exact and_iff_left haccounted.popped
      · cases hstep
    · cases hstep

end Step

/-- **In every run no message is lost, but by eviction from a full queue, and none is sent twice,
exactly if each message that is sent is still there when it is to be removed.** -/
theorem accounted_iff_undisturbed (nodeCount : ℕ) (me : SchainIndex) (events : List SendEvent)
    (s : SendState) (hrun : (delayedSender nodeCount me).run events = some s) :
    (delayedSender nodeCount me).Always SendState.Accounted (delayedSender nodeCount me).initial
        events ↔
      (delayedSender nodeCount me).Keeps SendEvent.Undisturbed (delayedSender nodeCount me).initial
        events :=
  Machine.always_iff_keeps (fun _ _ _ hconsistent haccounted hstep =>
      hconsistent.step haccounted hstep)
    SendState.consistent_initial (SendState.consistent_initial.accounted_iff.mpr nofun) hrun

/-! ### Two runs -/

instance decidableUndisturbed (event : SendEvent) (s : SendState) :
    Decidable (event.Undisturbed s) :=
  match event, h : s.loop with
  | .pop, .removing e =>
    decidable_of_iff (∀ x ∈ s.evicted, x.1 ≠ e) (by
      simp only [SendEvent.Undisturbed, h]
      exact ⟨fun hne n hn => hne _ hn rfl, fun hnot x hx heq => hnot x.2 (heq ▸ hx)⟩)
  | .pop, .idle | .pop, .visiting _ | .pop, .holding _ =>
    isTrue (by simp only [SendEvent.Undisturbed, h])
  | .addToDelayedSends _ _, _ | .trySendingDelayedSends, _ | .peek, _ | .send _, _ => isTrue trivial

/-- The first of the two nodes, which missed the other. -/
def pairSender : Machine SendState SendEvent := delayedSender 2 1

/-- A message is evicted before the loop comes to its queue. -/
def undisturbedRun : List SendEvent :=
  List.replicate 129 (.addToDelayedSends 1 .first) ++
    [.trySendingDelayedSends, .peek, .send true, .pop]

theorem accounted_undisturbedRun :
    ∃ s, pairSender.run undisturbedRun = some s ∧ s.evicted.map (fun x => x.1.ticket) = [0] ∧
      s.sent.map Delayed.ticket = [1] ∧
      pairSender.Always SendState.Accounted pairSender.initial undisturbedRun := by
  obtain ⟨s, hrun, hlogs⟩ : ∃ s, pairSender.run undisturbedRun = some s ∧
      s.evicted.map (fun x => x.1.ticket) = [0] ∧ s.sent.map Delayed.ticket = [1] :=
    Machine.exists_run (by decide +kernel)
  have hkeeps : pairSender.Keeps SendEvent.Undisturbed pairSender.initial undisturbedRun := by
    decide +kernel
  exact ⟨s, hrun, hlogs.1, hlogs.2,
    (accounted_iff_undisturbed 2 1 undisturbedRun s hrun).mpr hkeeps⟩

/-- The first of 128 messages is sent; before it is removed, another message evicts it, and the
second is removed in its place. -/
theorem unsent_message_removed :
    ∃ s, pairSender.run (List.replicate 128 (.addToDelayedSends 1 .first) ++
        [.trySendingDelayedSends, .peek, .send true, .addToDelayedSends 1 .first, .pop]) =
        some s ∧
      s.sent.map Delayed.ticket = [0] ∧ s.popped.map Delayed.ticket = [1] ∧ ¬ s.Accounted := by
  obtain ⟨s, hrun, hsent, hpopped, e, he, hnot⟩ : ∃ s,
      pairSender.run (List.replicate 128 (.addToDelayedSends 1 .first) ++
        [.trySendingDelayedSends, .peek, .send true, .addToDelayedSends 1 .first, .pop]) =
        some s ∧ s.sent.map Delayed.ticket = [0] ∧ s.popped.map Delayed.ticket = [1] ∧
      ∃ e ∈ s.popped, e ∉ s.sent :=
    Machine.exists_run (by decide +kernel)
  exact ⟨s, hrun, hsent, hpopped, fun haccounted => hnot (haccounted.popped e he)⟩

end SkaleConsensus.Network
