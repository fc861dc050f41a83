import SkaleConsensus.Library.Recent
import SkaleConsensus.Network.Io
import Mathlib.Data.List.GetD

/-! The pool of known transactions.

A transaction that a node saw in a proposal is kept under its partial hash, so that the next
proposal need not carry it. The pool is a hash map and a queue in the order of arrival, with a
counter of the bytes in it; after each addition transactions leave it from the front of the queue,
until there are at most `KNOWN_TRANSACTIONS_HISTORY` of them and at most
`MAX_KNOWN_TRANSACTIONS_TOTAL_SIZE` bytes. A transaction that is larger than that takes everything
with it, and itself. -/
namespace SkaleConsensus.PendingQueue
open Library Block Network

def KNOWN_TRANSACTIONS_HISTORY : ℕ := 2 * MAX_TRANSACTIONS_PER_BLOCK
def MAX_KNOWN_TRANSACTIONS_TOTAL_SIZE : ℕ := 256 * 1024 * 1024

/-! ### The hash map -/

/-- `Hasher`. -/
def hasher (a : Bytes) : UInt64 :=
  (List.range PARTIAL_HASH_LEN).foldl (fun hash i => hash * 31 + (a.getD i 0).toUInt64) 0

/-- `Equal`. -/
def equal (a b : Bytes) : Bool :=
  (List.range PARTIAL_HASH_LEN).all fun i => a.getD i 0 == b.getD i 0

/-- Two keys are the same for an `unordered_map` if they are equal and in the same bucket. -/
def sameKey (a b : Bytes) : Bool := hasher a == hasher b && equal a b

def keyBytes (a : Bytes) : Bytes := (List.range PARTIAL_HASH_LEN).map (a.getD · 0)

abbrev TransactionMap := List (Bytes × Transaction)

namespace TransactionMap

def count (known : TransactionMap) (hash : Bytes) : ℕ := known.countP (sameKey hash ·.1)

/-- `knownTransactions[hash] = t`. -/
def assign (known : TransactionMap) (hash : Bytes) (t : Transaction) : TransactionMap :=
  if 0 < known.count hash then known.map fun e => if sameKey hash e.1 then (e.1, t) else e
  else known ++ [(hash, t)]

def erase (known : TransactionMap) (hash : Bytes) : TransactionMap :=
  known.filter fun e => !sameKey hash e.1

def at? (known : TransactionMap) (hash : Bytes) : Option Transaction :=
  (known.find? (sameKey hash ·.1)).map Prod.snd

end TransactionMap

/-! ### The pool -/

structure KnownTransactions where
  knownTransactions : TransactionMap
  /-- The front first. -/
  knownTransactionsQueue : List Transaction
  knownTransactionsTotalSize : UInt64

def KnownTransactions.empty : KnownTransactions := ⟨[], [], 0⟩

/-- What a transaction counts for. -/
def poolSize (t : Transaction) : ℕ := t.data.length + PARTIAL_HASH_LEN

section Push
variable (blake3 : Bytes → Hash)

/-- The eviction loop, with the queue, the map and the counter. Each turn pops the queue; looking
at the front of an empty queue is undefined. -/
def evict : List Transaction → TransactionMap → UInt64 →
    Except String (List Transaction × TransactionMap × UInt64)
  | [], known, totalSize =>
    if KNOWN_TRANSACTIONS_HISTORY < known.length ∨
        MAX_KNOWN_TRANSACTIONS_TOTAL_SIZE < totalSize.toNat then
      throw "front of an empty queue"
    else pure ([], known, totalSize)
  | tx :: rest, known, totalSize =>
    if KNOWN_TRANSACTIONS_HISTORY < known.length ∨
        MAX_KNOWN_TRANSACTIONS_TOTAL_SIZE < totalSize.toNat then do
      let totalSize := totalSize - UInt64.ofNat (poolSize tx)
      checkState (decide (0 < known.count (tx.partialHash blake3)))
        "knownTransactions.count( tx->getPartialHash() ) > 0"
      evict rest (known.erase (tx.partialHash blake3)) totalSize
    else pure (tx :: rest, known, totalSize)

def pushKnownTransaction (s : KnownTransactions) (t : Transaction) :
    Except String KnownTransactions :=
  if 0 < s.knownTransactions.count (t.partialHash blake3) then pure s
  else do
    let known := s.knownTransactions.assign (t.partialHash blake3) t
    let queue := s.knownTransactionsQueue ++ [t]
    checkState (known.length == queue.length)
      "knownTransactions.size() == knownTransactionsQueue.size()"
    let totalSize := s.knownTransactionsTotalSize + UInt64.ofNat (poolSize t)
    let (queue, known, totalSize) ← evict blake3 queue known totalSize
    return ⟨known, queue, totalSize⟩

def getKnownTransactionByPartialHash (s : KnownTransactions) (hash : Bytes) : Option Transaction :=
  if 0 < s.knownTransactions.count hash then s.knownTransactions.at? hash else none

end Push

/-- A transaction as a `vector` can hold it. -/
structure HeldTransaction extends Transaction where
  fits : data.length < 2 ^ 63

/-- The calls of `pushKnownTransaction` in the life of a node. -/
def pushAll (blake3 : Bytes → Hash) (pushed : List HeldTransaction) :
    Except String KnownTransactions :=
  pushed.foldlM (fun s t => pushKnownTransaction blake3 s t.toTransaction) .empty

/-! ### Keys -/

theorem hasher_eq (a : Bytes) :
    hasher a = (keyBytes a).foldl (fun hash b => hash * 31 + b.toUInt64) 0 := by
  unfold hasher keyBytes
  rw [List.foldl_map]

/-- Equal keys are in the same bucket, so that buckets do not matter. -/
theorem sameKey_iff {a b : Bytes} : sameKey a b = true ↔ keyBytes a = keyBytes b := by
  have hequal : equal a b = true ↔ keyBytes a = keyBytes b := by
    unfold equal keyBytes
    rw [List.all_eq_true, List.map_inj_left]
    simp only [beq_iff_eq]
  unfold sameKey
  rw [Bool.and_eq_true, hequal, beq_iff_eq]
  refine ⟨And.right, fun h => ⟨?_, h⟩⟩
  rw [hasher_eq, hasher_eq, h]

/-! ### Map, queue and counter -/

section Agreement
variable {blake3 : Bytes → Hash} {queue : List Transaction} {known : TransactionMap}
  {totalSize : UInt64}

def poolKey (blake3 : Bytes → Hash) (t : Transaction) : Bytes := keyBytes (t.partialHash blake3)

def poolFits (queue : List Transaction) : Bool :=
  decide (queue.length ≤ KNOWN_TRANSACTIONS_HISTORY) &&
    decide ((queue.map poolSize).sum ≤ MAX_KNOWN_TRANSACTIONS_TOTAL_SIZE)

/-- What was added, the last last, by these calls: a transaction is new if none of the most recent
that fit has its partial hash. -/
def addedBy (blake3 : Bytes → Hash) (pushed : List Transaction) : List Transaction :=
  history poolFits (fun t u => poolKey blake3 t == poolKey blake3 u) pushed

theorem poolFits_iff : poolFits queue = true ↔
    queue.length ≤ KNOWN_TRANSACTIONS_HISTORY ∧
      (queue.map poolSize).sum ≤ MAX_KNOWN_TRANSACTIONS_TOTAL_SIZE := by
  unfold poolFits
  rw [Bool.and_eq_true, decide_eq_true_iff, decide_eq_true_iff]

theorem poolFits_of_append (queue : List Transaction) (t : Transaction)
    (h : poolFits (queue ++ [t]) = true) : poolFits queue = true := by
  rw [poolFits_iff] at h ⊢
  simp only [List.length_append, List.map_append, List.sum_append] at h
  omega

structure Agree (blake3 : Bytes → Hash) (queue : List Transaction) (known : TransactionMap)
    (totalSize : UInt64) : Prop where
  entries : known.Perm (queue.map fun t => (t.partialHash blake3, t))
  distinct : (queue.map (poolKey blake3)).Nodup
  totalSize : totalSize.toNat = (queue.map poolSize).sum

theorem count_pos_iff {hash : Bytes}
    (h : known.Perm (queue.map fun t => (t.partialHash blake3, t))) :
    0 < known.count hash ↔ ∃ t ∈ queue, poolKey blake3 t = keyBytes hash := by
  unfold TransactionMap.count
  rw [h.countP_eq, List.countP_map, List.countP_pos_iff]
  simp only [Function.comp_apply, sameKey_iff]
  exact exists_congr fun t => and_congr_right fun _ => eq_comm

theorem Agree.length (h : Agree blake3 queue known totalSize) :
    known.length = queue.length := by
  rw [h.entries.length_eq, List.length_map]

/-- The loop goes on exactly as long as the queue does not fit. -/
theorem Agree.over_iff (h : Agree blake3 queue known totalSize) :
    (KNOWN_TRANSACTIONS_HISTORY < known.length ∨
      MAX_KNOWN_TRANSACTIONS_TOTAL_SIZE < totalSize.toNat) ↔ ¬ poolFits queue = true := by
  rw [poolFits_iff, h.length, h.totalSize, not_and_or, not_le, not_le]

/-- One turn of the loop. -/
theorem Agree.evict {tx : Transaction} {rest : List Transaction}
    (h : Agree blake3 (tx :: rest) known totalSize) :
    0 < known.count (tx.partialHash blake3) ∧
      Agree blake3 rest (known.erase (tx.partialHash blake3))
        (totalSize - UInt64.ofNat (poolSize tx)) := by
  obtain ⟨hfront, hrest⟩ := List.nodup_cons.mp h.distinct
  have htotal : totalSize.toNat = poolSize tx + (rest.map poolSize).sum := h.totalSize
  have hsize : poolSize tx ≤ totalSize.toNat := htotal ▸ Nat.le_add_right _ _
  have hofNat : (UInt64.ofNat (poolSize tx)).toNat = poolSize tx :=
    Nat.mod_eq_of_lt (hsize.trans_lt totalSize.toNat_lt)
  refine ⟨(count_pos_iff h.entries).mpr ⟨tx, List.mem_cons_self, rfl⟩, ?_, hrest, ?_⟩
  · -- The front is the only entry under its key.
    unfold TransactionMap.erase
    refine (h.entries.filter _).trans (List.Perm.of_eq ?_)
    rw [List.map_cons, List.filter_cons_of_neg (by simp [sameKey_iff]), List.filter_eq_self]
    intro e he
    obtain ⟨t, ht, rfl⟩ := List.mem_map.mp he
    have hne : ¬ sameKey (tx.partialHash blake3) (t.partialHash blake3) = true := by
      rw [sameKey_iff]
      exact fun heq => hfront (List.mem_map.mpr ⟨t, ht, heq.symm⟩)
    simpa using hne
  · rw [UInt64.toNat_sub_of_le _ _ (UInt64.le_iff_toNat_le.mpr (hofNat.trans_le hsize)), hofNat,
      htotal, Nat.add_sub_cancel_left]

/-- The loop ends, no check in it fails, and it leaves the longest suffix that fits. -/
theorem evict_eq_ok (h : Agree blake3 queue known totalSize) :
    ∃ known' totalSize', evict blake3 queue known totalSize =
        .ok (recent poolFits queue, known', totalSize') ∧
      Agree blake3 (recent poolFits queue) known' totalSize' := by
  induction queue generalizing known totalSize with
  | nil =>
    have hover := h.over_iff.not.mpr (not_not.mpr rfl)
    exact ⟨known, totalSize, if_neg hover, h⟩
  | cons tx rest ih =>
    unfold PendingQueue.evict
    by_cases hfits : poolFits (tx :: rest) = true
    · rw [if_neg (h.over_iff.not.mpr (not_not.mpr hfits)), recent_of_fits hfits]
      exact ⟨known, totalSize, rfl, h⟩
    · obtain ⟨hcount, hagree⟩ := h.evict
      obtain ⟨known', totalSize', hrest, hagree'⟩ := ih hagree
      rw [if_pos (h.over_iff.mpr hfits), recent_of_not_fits hfits]
      refine ⟨known', totalSize', ?_, hagree'⟩
      exact checkState_bind_eq_ok.mpr ⟨decide_eq_true hcount, hrest⟩

end Agreement

/-! ### The pool after any number of calls -/

namespace KnownTransactions
variable {blake3 : Bytes → Hash} {s s' : KnownTransactions}

/-- The pool after these calls. -/
structure Inv (blake3 : Bytes → Hash) (pushed : List Transaction) (s : KnownTransactions) :
    Prop where
  agree : Agree blake3 s.knownTransactionsQueue s.knownTransactions s.knownTransactionsTotalSize
  recent : s.knownTransactionsQueue = recent poolFits (addedBy blake3 pushed)

theorem inv_empty : Inv blake3 [] .empty := ⟨⟨.refl _, .nil, rfl⟩, rfl⟩

variable {pushed : List Transaction}

theorem Inv.fits (h : Inv blake3 pushed s) : poolFits s.knownTransactionsQueue = true := by
  rw [h.recent]
  exact fits_recent (by decide) _

/-- A transaction is added if the map does not know its partial hash. -/
theorem Inv.addedBy_concat (h : Inv blake3 pushed s) (t : Transaction) :
    addedBy blake3 (pushed ++ [t]) =
      if 0 < s.knownTransactions.count (t.partialHash blake3) then addedBy blake3 pushed
      else addedBy blake3 pushed ++ [t] := by
  refine (history_concat _ _ _).trans (if_congr ?_ rfl rfl)
  rw [count_pos_iff h.agree.entries, h.recent, List.any_eq_true]
  simp only [beq_iff_eq]
  exact exists_congr fun u => and_congr_right fun _ => eq_comm

/-- Before the loop a transaction that is new is in the map, in the queue and in the counter. -/
theorem Inv.agree_append (h : Inv blake3 pushed s) (t : HeldTransaction)
    (hnew : ¬ 0 < s.knownTransactions.count (t.partialHash blake3)) :
    Agree blake3 (s.knownTransactionsQueue ++ [t.toTransaction])
      (s.knownTransactions.assign (t.partialHash blake3) t.toTransaction)
      (s.knownTransactionsTotalSize + UInt64.ofNat (poolSize t.toTransaction)) where
  entries := by
    unfold TransactionMap.assign
    rw [if_neg hnew, List.map_append]
    exact h.agree.entries.append_right _
  distinct := by
    rw [List.map_append, List.nodup_append]
    refine ⟨h.agree.distinct, List.nodup_singleton _, fun key hkey key' hkey' heq => ?_⟩
    obtain ⟨u, hu, rfl⟩ := List.mem_map.mp hkey
    obtain rfl := List.mem_singleton.mp hkey'
    exact hnew ((count_pos_iff h.agree.entries).mpr ⟨u, hu, heq⟩)
  totalSize := by
    have hsum := (poolFits_iff.mp h.fits).2
    have hlength := t.fits
    have hsize : poolSize t.toTransaction < 2 ^ 63 + PARTIAL_HASH_LEN :=
      Nat.add_lt_add_right hlength _
    have hmax : MAX_KNOWN_TRANSACTIONS_TOTAL_SIZE + (2 ^ 63 + PARTIAL_HASH_LEN) < 2 ^ 64 := by
      decide
    rw [UInt64.toNat_add, h.agree.totalSize, UInt64.toNat_ofNat', List.map_append, List.sum_append,
      List.map_singleton, List.sum_singleton]
    omega

theorem Inv.pushKnownTransaction (h : Inv blake3 pushed s) (t : HeldTransaction) :
    ∃ s', pushKnownTransaction blake3 s t.toTransaction = .ok s' ∧
      Inv blake3 (pushed ++ [t.toTransaction]) s' := by
  have hadded := h.addedBy_concat t.toTransaction
  unfold PendingQueue.pushKnownTransaction
  by_cases hknown : 0 < s.knownTransactions.count (t.partialHash blake3)
  · refine ⟨s, if_pos hknown, h.agree, ?_⟩
    rw [hadded, if_pos hknown]
    exact h.recent
  · have hagree := h.agree_append t hknown
    obtain ⟨known, totalSize, hevict, hagree'⟩ := evict_eq_ok hagree
    rw [if_neg hknown]
    refine ⟨⟨known, _, totalSize⟩, ?_, hagree', ?_⟩
    · refine checkState_bind_eq_ok.mpr ⟨beq_iff_eq.mpr hagree.length, ?_⟩
      exact bind_eq_ok.mpr ⟨_, hevict, rfl⟩
    · rw [hadded, if_neg hknown, h.recent]
      exact recent_append_recent poolFits_of_append _ _

theorem Inv.pushAll (h : Inv blake3 pushed s) (more : List HeldTransaction) :
    ∃ s', more.foldlM (fun s t => PendingQueue.pushKnownTransaction blake3 s t.toTransaction) s =
      .ok s' ∧ Inv blake3 (pushed ++ more.map (·.toTransaction)) s' := by
  induction more generalizing s pushed with
  | nil => exact ⟨s, rfl, by rwa [List.map_nil, List.append_nil]⟩
  | cons t rest ih =>
    obtain ⟨mid, hmid, hinv⟩ := h.pushKnownTransaction t
    obtain ⟨s', hrest, hinv'⟩ := ih hinv
    rw [List.foldlM_cons]
    refine ⟨s', bind_eq_ok.mpr ⟨mid, hmid, hrest⟩, ?_⟩
    rwa [List.append_assoc] at hinv'

/-- What is expected of the pool, where these transactions were added. -/
structure Sound (blake3 : Bytes → Hash) (added : List Transaction) (s : KnownTransactions) :
    Prop where
  /-- Map and queue hold the same transactions, each under its partial hash. -/
  same : s.knownTransactions.Perm (s.knownTransactionsQueue.map fun t => (t.partialHash blake3, t))
  distinct : (s.knownTransactionsQueue.map (Transaction.partialHash blake3)).Nodup
  totalSize : s.knownTransactionsTotalSize.toNat =
    (s.knownTransactionsQueue.map fun t => t.data.length + PARTIAL_HASH_LEN).sum
  count_le : s.knownTransactions.length ≤ KNOWN_TRANSACTIONS_HISTORY
  size_le : s.knownTransactionsTotalSize.toNat ≤ MAX_KNOWN_TRANSACTIONS_TOTAL_SIZE
  /-- The queue is the end of what was added, and no more of that would fit. -/
  recent : s.knownTransactionsQueue <:+ added
  longest : ∀ queue, queue <:+ added → queue.length ≤ KNOWN_TRANSACTIONS_HISTORY →
    (queue.map fun t => t.data.length + PARTIAL_HASH_LEN).sum ≤ MAX_KNOWN_TRANSACTIONS_TOTAL_SIZE →
    queue <:+ s.knownTransactionsQueue

theorem Inv.sound (h : Inv blake3 pushed s) : Sound blake3 (addedBy blake3 pushed) s where
  same := h.agree.entries
  distinct := by
    refine List.Nodup.of_map keyBytes ?_
    rw [List.map_map]
    exact h.agree.distinct
  totalSize := h.agree.totalSize
  count_le := by
    rw [h.agree.length]
    exact (poolFits_iff.mp h.fits).1
  size_le := by
    rw [h.agree.totalSize]
    exact (poolFits_iff.mp h.fits).2
  recent := by
    rw [h.recent]
    exact recent_suffix _
  longest queue hsuffix hcount hsize := by
    rw [h.recent]
    exact suffix_recent_of_fits hsuffix (poolFits_iff.mpr ⟨hcount, hsize⟩)

end KnownTransactions

/-- No sequence of calls throws, and each leaves the pool as it should be. -/
theorem pushAll_sound (blake3 : Bytes → Hash) (pushed : List HeldTransaction) :
    ∃ s, pushAll blake3 pushed = .ok s ∧
      s.Sound blake3 (addedBy blake3 (pushed.map (·.toTransaction))) := by
  obtain ⟨s, hrun, hinv⟩ := KnownTransactions.inv_empty.pushAll pushed
  exact ⟨s, hrun, hinv.sound⟩

end SkaleConsensus.PendingQueue
