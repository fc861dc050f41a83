import SkaleConsensus.Library.Reconcile
import SkaleConsensus.PendingQueue.KnownTransactions
import SkaleConsensus.Proposal.Uniqueness

/-! The transactions of a request.

After the answer to its header a client sends the partial hashes of its transactions. The server
looks them up in its pool of known transactions, one after the other, while the thread that makes
the node's own proposals adds to the pool. It asks for those it did not find, adds what it gets to
the pool and puts the list together. What was added stays there when the request fails.

As long as the transactions that are about have different partial hashes, and the client sends
what it is asked for, the list does not depend on the pool (`exchange_eq`). -/
namespace SkaleConsensus.Proposal
open Library Block PendingQueue Reconcile

structure Client where
  hashes : List Bytes
  /-- What it sends when these are asked for, if that can be read. -/
  answer : List Bytes → Option (List Transaction)

/-- The iteration over the `unordered_map` of what a client sent, where the last transaction of
a partial hash is. -/
structure Iteration (blake3 : Bytes → Hash) where
  items : List Transaction → List Transaction
  mem_items : ∀ sent t,
    t ∈ items sent ↔ received (poolKey blake3) sent (poolKey blake3 t) = some t

section Exchange
variable {blake3 : Bytes → Hash} (order : Iteration blake3)

/-- `pushKnownTransaction` for each of these. -/
def learn (blake3 : Bytes → Hash) (known : KnownTransactions) (transactions : List Transaction) :
    KnownTransactions :=
  transactions.foldl (fun known t => (pushKnownTransaction blake3 known t).toOption.getD known)
    known

/-- `processProposalRequest` from the partial hashes to the list of transactions, which is not
complete where it throws. `meanwhile` is what the other thread adds before each lookup. -/
def exchange (known : KnownTransactions) (client : Client) (meanwhile : ℕ → List Transaction) :
    Option (List Transaction) × KnownTransactions :=
  let pool i := learn blake3 known ((List.range i).flatMap meanwhile)
  let looked := lookups (fun i => getKnownTransactionByPartialHash (pool (i + 1))) client.hashes
  let last := pool client.hashes.length
  match if missing looked = [] then some [] else client.answer (missing looked) with
  | none => (none, last)
  | some sent =>
    (rebuilt (fun hash => received (poolKey blake3) sent (keyBytes hash)) looked,
      learn blake3 last (order.items sent))

/-! ### What is in the pool -/

/-- Only transactions of `F`, each under its partial hash. -/
def Holds (blake3 : Bytes → Hash) (F : Set Transaction) (s : KnownTransactions) : Prop :=
  ∀ e ∈ s.knownTransactions, e.2 ∈ F ∧ e.1 = e.2.partialHash blake3

variable {F : Set Transaction} {s s' : KnownTransactions} {client : Client}
  {meanwhile : ℕ → List Transaction}

theorem holds_empty : Holds blake3 F .empty := nofun

theorem subset_of_evict {queue queue' : List Transaction} {known known' : TransactionMap}
    {totalSize totalSize' : UInt64}
    (h : evict blake3 queue known totalSize = .ok (queue', known', totalSize')) :
    known' ⊆ known := by
  induction queue generalizing known totalSize with
  | nil =>
    unfold evict at h
    split_ifs at h
    cases h
    exact List.Subset.refl _
  | cons tx rest ih =>
    unfold evict at h
    split_ifs at h
    · have h := after_check h
      have herase : known.erase (tx.partialHash blake3) ⊆ known := List.filter_sublist.subset
      exact List.Subset.trans (ih h) herase
    · cases h
      exact List.Subset.refl _

theorem Holds.push (h : Holds blake3 F s) {t : Transaction} (ht : t ∈ F)
    (hpush : pushKnownTransaction blake3 s t = .ok s') : Holds blake3 F s' := by
  unfold pushKnownTransaction at hpush
  split_ifs at hpush with hknown
  · cases hpush
    exact h
  · have hpush := after_check hpush
    obtain ⟨⟨queue, known, totalSize⟩, hevict, hpush⟩ := bind_eq_ok.mp hpush
    cases hpush
    intro e he
    have hmem := subset_of_evict hevict he
    rw [TransactionMap.assign, if_neg hknown, List.mem_append, List.mem_singleton] at hmem
    rcases hmem with hold | rfl
    · exact h e hold
    · exact ⟨ht, rfl⟩

theorem Holds.learn (h : Holds blake3 F s) {transactions : List Transaction}
    (htransactions : ∀ t ∈ transactions, t ∈ F) : Holds blake3 F (learn blake3 s transactions) := by
  induction transactions generalizing s with
  | nil => exact h
  | cons t rest ih =>
    refine ih (s := (pushKnownTransaction blake3 s t).toOption.getD s) ?_
      fun u hu => htransactions u (List.mem_cons_of_mem t hu)
    cases hpush : pushKnownTransaction blake3 s t with
    | error e => exact h
    | ok s' => exact h.push (htransactions t List.mem_cons_self) hpush

theorem Holds.found (h : Holds blake3 F s) {hash : Bytes} {t : Transaction}
    (hfound : getKnownTransactionByPartialHash s hash = some t) :
    t ∈ F ∧ poolKey blake3 t = keyBytes hash := by
  unfold getKnownTransactionByPartialHash TransactionMap.at? at hfound
  split_ifs at hfound
  obtain ⟨e, he, rfl⟩ := Option.map_eq_some_iff.mp hfound
  obtain ⟨hF, hkey⟩ := h e (List.mem_of_find?_eq_some he)
  have hsame := List.find?_some he
  simp only [sameKey_iff] at hsame
  refine ⟨hF, ?_⟩
  rw [poolKey, ← hkey, hsame]

/-! ### What a client sends -/

/-- All that it sends is of `F`. -/
def Client.Within (F : Set Transaction) (client : Client) : Prop :=
  ∀ asked, ∀ sent ∈ client.answer asked, ∀ t ∈ sent, t ∈ F

/-- Whichever of its hashes are asked for, it sends transactions that have them. -/
def Client.Answers (blake3 : Bytes → Hash) (client : Client) : Prop :=
  ∀ asked, asked.Sublist client.hashes → asked ≠ [] →
    ∃ sent, client.answer asked = some sent ∧
      ∀ hash ∈ asked, ∃ t ∈ sent, poolKey blake3 t = keyBytes hash

theorem Holds.exchange (h : Holds blake3 F s) (hmeanwhile : ∀ i, ∀ t ∈ meanwhile i, t ∈ F)
    (hclient : client.Within F) : Holds blake3 F (exchange order s client meanwhile).2 := by
  have hpool :
      ∀ i, Holds blake3 F (Proposal.learn blake3 s ((List.range i).flatMap meanwhile)) := by
    intro i
    refine h.learn fun t ht => ?_
    obtain ⟨j, -, ht⟩ := List.mem_flatMap.mp ht
    exact hmeanwhile j t ht
  unfold Proposal.exchange
  dsimp only
  split
  next => exact hpool _
  next sent hsent =>
    refine (hpool _).learn fun t ht => ?_
    have hmem := (mem_of_received ((order.mem_items sent t).mp ht)).1
    split_ifs at hsent
    · cases hsent
      cases hmem
    · exact hclient _ sent hsent t hmem

/-- The list that a client who answers is led to. -/
theorem exchange_spec (h : Holds blake3 F s) (hmeanwhile : ∀ i, ∀ t ∈ meanwhile i, t ∈ F)
    (hclient : client.Within F) (hanswers : client.Answers blake3) :
    ∃ transactions, (exchange order s client meanwhile).1 = some transactions ∧
      List.Forall₂ (fun hash t => t ∈ F ∧ poolKey blake3 t = keyBytes hash) client.hashes
        transactions := by
  unfold exchange
  dsimp only
  generalize hlooked : lookups (fun i => getKnownTransactionByPartialHash
    (learn blake3 s ((List.range (i + 1)).flatMap meanwhile))) client.hashes = looked
  have hkeys : looked.map Prod.fst = client.hashes := by rw [← hlooked, map_fst_lookups]
  have hfound : ∀ x ∈ looked, ∀ t ∈ x.2, t ∈ F ∧ poolKey blake3 t = keyBytes x.1 := by
    intro x hx t ht
    obtain ⟨i, hi⟩ := exists_of_mem_lookups (hlooked ▸ hx)
    refine (h.learn fun u hu => ?_).found (hi.symm.trans ht)
    obtain ⟨j, -, hu⟩ := List.mem_flatMap.mp hu
    exact hmeanwhile j u hu
  obtain ⟨sent, hsent, hF, hall⟩ : ∃ sent,
      (if missing looked = [] then some [] else client.answer (missing looked)) = some sent ∧
      (∀ t ∈ sent, t ∈ F) ∧
      ∀ hash ∈ missing looked, ∃ t ∈ sent, poolKey blake3 t = keyBytes hash := by
    by_cases hnone : missing looked = []
    · exact ⟨[], if_pos hnone, nofun, by rw [hnone]; nofun⟩
    · obtain ⟨sent, hsent, hall⟩ := hanswers _ (hkeys ▸ missing_sublist looked) hnone
      exact ⟨sent, by rw [if_neg hnone, hsent], hclient _ sent hsent, hall⟩
  have hthere : ∀ x ∈ looked, ∃ t,
      x.2.or (received (poolKey blake3) sent (keyBytes x.1)) = some t ∧
        t ∈ F ∧ poolKey blake3 t = keyBytes x.1 := by
    intro x hx
    cases hx₂ : x.2 with
    | some t => exact ⟨t, rfl, hfound x hx t hx₂⟩
    | none =>
      obtain ⟨t, ht⟩ := exists_received (hall x.1 (mem_missing.mpr ⟨x, hx, hx₂, rfl⟩))
      obtain ⟨hmem, hkey⟩ := mem_of_received ht
      exact ⟨t, ht, hF t hmem, hkey⟩
  obtain ⟨transactions, hrebuilt, hmatch⟩ := exists_rebuilt
    (P := fun hash t => t ∈ F ∧ poolKey blake3 t = keyBytes hash)
    (fun hash => received (poolKey blake3) sent (keyBytes hash)) hthere
  rw [hkeys] at hmatch
  rw [hsent]
  exact ⟨transactions, hrebuilt, hmatch⟩

/-- Two pools lead to the same list. -/
theorem exchange_eq (hF : F.InjOn (poolKey blake3)) (h : Holds blake3 F s) (h' : Holds blake3 F s')
    (hmeanwhile : ∀ i, ∀ t ∈ meanwhile i, t ∈ F) (hclient : client.Within F)
    (hanswers : client.Answers blake3) :
    (exchange order s client meanwhile).1 = (exchange order s' client meanwhile).1 := by
  obtain ⟨transactions, heq, hall⟩ := exchange_spec order h hmeanwhile hclient hanswers
  obtain ⟨transactions', heq', hall'⟩ := exchange_spec order h' hmeanwhile hclient hanswers
  rw [heq, heq']
  refine congrArg some (List.right_unique_forall₂' ?_ hall hall')
  exact fun hash t u ht hu => hF ht.1 hu.1 (ht.2.trans hu.2.symm)

end Exchange

/-! ### The server with its pool -/

structure ServerState where
  node : NodeState
  known : KnownTransactions

inductive ServerEvent where
  /-- A step of the node that takes no list of transactions. -/
  | node (e : NodeEvent)
  /-- `createTransactionsListForProposal` comes to a transaction. -/
  | learn (t : Transaction)
  | exchange (h : BlockProposalRequestHeader) (client : Client) (meanwhile : ℕ → List Transaction)

namespace ServerEvent
variable {blake3 : Bytes → Hash}

def isEnabled : ServerEvent → Bool
  | .node (.finish _ _) => false
  | .exchange h client _ => client.hashes.length == h.txCount
  | _ => true

/-- What the node does then. An exchange that leads to no list ends the request. -/
def resolved (order : Iteration blake3) : ServerEvent → KnownTransactions → Option NodeEvent
  | .node e, _ => some e
  | .learn _, _ => none
  | .exchange h client meanwhile, known =>
    match (Proposal.exchange order known client meanwhile).1 with
    | some transactions => some (.finish h transactions)
    | none => some (.drop h)

def pool (order : Iteration blake3) : ServerEvent → KnownTransactions → KnownTransactions
  | .node .restart, _ => .empty
  | .node _, known => known
  | .learn t, known => Proposal.learn blake3 known [t]
  | .exchange _ client meanwhile, known => (Proposal.exchange order known client meanwhile).2

/-- All transactions of the event are of `F`. -/
def Within (F : Set Transaction) : ServerEvent → Prop
  | .node _ => True
  | .learn t => t ∈ F
  | .exchange _ client meanwhile => (∀ i, ∀ t ∈ meanwhile i, t ∈ F) ∧ client.Within F

def Answered (blake3 : Bytes → Hash) : ServerEvent → Prop
  | .exchange _ client _ => client.Answers blake3
  | _ => True

variable {order : Iteration blake3} {F : Set Transaction} {e : ServerEvent}
  {known known' : KnownTransactions}

theorem Within.holds (he : e.Within F) (h : Holds blake3 F known) :
    Holds blake3 F (e.pool order known) := by
  cases e with
  | node e =>
    unfold pool
    split
    · exact holds_empty
    · exact h
    · contradiction
    · contradiction
  | learn t => exact h.learn fun u hu => List.mem_singleton.mp hu ▸ he
  | exchange _ client meanwhile => exact h.exchange order he.1 he.2

theorem resolved_eq (hF : F.InjOn (poolKey blake3)) (h : Holds blake3 F known)
    (h' : Holds blake3 F known') (he : e.Within F) (hanswered : e.Answered blake3) :
    e.resolved order known = e.resolved order known' := by
  cases e with
  | node e => rfl
  | learn t => rfl
  | exchange _ client meanwhile =>
    simp only [resolved, exchange_eq order hF h h' he.1 he.2 hanswered]

end ServerEvent

def serverStep (n : Node) (order : Iteration n.cm.blake3) (e : ServerEvent) (s : ServerState) :
    Option ServerState :=
  if e.isEnabled then
    ((e.resolved order s.known).elim (some s.node) (nodeStep n · s.node)).map
      (⟨·, e.pool order s.known⟩)
  else none

def server (n : Node) (order : Iteration n.cm.blake3) : Machine ServerState ServerEvent :=
  ⟨⟨(running n).initial, .empty⟩, serverStep n order⟩

end SkaleConsensus.Proposal
