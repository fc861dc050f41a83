import SkaleConsensus.Catchup.Accepted
import SkaleConsensus.Library.SizedWalk

/-! The parts of a buffer that the sizes of a peer make the readers cut out.

Transactions and blocks are cut out of a buffer by lists of sizes that came with it. Each sum of an
index and a size is compared with the length of the buffer, and then a vector is made from the range
between the index and the sum. The sums are `uint64_t`, so that a size close to `2 ^ 64` gives a
sum below the index, which passes the comparison; but such a size is more than a vector can have,
and its constructor throws (`slice_eq_ok_iff`).

`cut_within`: whatever the sizes are, every range that is cut out is one of the buffer. -/
namespace SkaleConsensus.Block
open Library Crypto BlockReader

/-! ### Transactions -/

/-- `vector< uint8_t >::max_size`. -/
def MAX_VECTOR_SIZE : ℕ := 2 ^ 63 - 1

/-- The range that `Transaction::deserialize` makes a vector from, after its checks. -/
def Transaction.range? (data : Bytes) (startIndex len : ℕ) : Option Range :=
  if 0 < len then SizedWalk.range? (2 ^ 64) MAX_VECTOR_SIZE data.length startIndex len else none

/-- The checks before the loop of `TransactionList`. -/
def TransactionList.opens (transactionSizes : List ℕ) (serialized : Bytes) (offset : ℕ)
    (checkPartialHash : Bool) : Bool :=
  serialized[offset]? == some 60 && serialized.getLast? == some 62 &&
    transactionSizes.all (fun size => decide (0 < size)) &&
    decide ((if checkPartialHash then PARTIAL_HASH_LEN + 2 else 2) < serialized.length - offset)

section Transactions
variable (blake3 : Bytes → Hash) (serialized : Bytes) (checkPartialHash : Bool)

/-- Whether the loop goes on behind a transaction. -/
def readsTransaction (index size : ℕ) (_ : Unit) : Option Unit :=
  match Transaction.deserialize blake3 serialized index size checkPartialHash with
  | .ok _ => some ()
  | .error _ => none

/-- The ranges that the loop of `TransactionList` cuts out. The offset is a `uint32_t`. -/
def TransactionList.ranges (transactionSizes : List ℕ) (offset : ℕ) : List Range :=
  if TransactionList.opens transactionSizes serialized offset checkPartialHash then
    SizedWalk.ranges (2 ^ 64) MAX_VECTOR_SIZE serialized.length
      (readsTransaction blake3 serialized checkPartialHash) ((offset + 1) % 2 ^ 32)
      transactionSizes ()
  else []

end Transactions

/-! ### Blocks -/

namespace BlockReader
variable (r : BlockReader) (serializedBlocks : Bytes)

/-- The checks before the loop of `CommittedBlockList`. -/
def opens (offset : ℕ) : Bool :=
  serializedBlocks[offset]? == some 91 && serializedBlocks.getLast? == some 93

/-- Whether the loop goes on behind a block. -/
def readsBlock (index size : ℕ) (cache : SessionCache) : Option SessionCache :=
  match (r.readBlock serializedBlocks index size).run cache with
  | .ok _ cache' => some cache'
  | .error _ _ => none

/-- The ranges that the loop of `CommittedBlockList` cuts out. -/
def ranges (blockSizes : List ℕ) (offset : ℕ) (cache : SessionCache) : List Range :=
  if opens serializedBlocks offset then
    SizedWalk.ranges (2 ^ 64) MAX_VECTOR_SIZE serializedBlocks.length
      (r.readsBlock serializedBlocks) ((offset + 1) % 2 ^ 64) blockSizes cache
  else []

end BlockReader

/-! ### The ranges are within the buffer -/

section Within
variable {blake3 : Bytes → Hash} {r : BlockReader} {serialized : Bytes} {index : ℕ}

/-- After the comparison, what the vector does not take is a sum that wraps around. -/
theorem slice_eq_ok_iff {data : Bytes} {start len : ℕ} (hdata : data.length ≤ MAX_VECTOR_SIZE)
    (hstart : start ≤ data.length) (hlen : len < 2 ^ 64)
    (hle : (start + len) % 2 ^ 64 ≤ data.length) :
    (∃ part, slice data start len = .ok part) ↔ len ≤ MAX_VECTOR_SIZE := by
  unfold slice MAX_VECTOR_SIZE at *
  split_ifs with hlong
  · exact iff_of_false nofun (by omega)
  · exact iff_of_true ⟨_, rfl⟩ (by omega)

/-- A transaction is made of bytes of the buffer. -/
theorem le_of_readsTransaction {checkPartialHash : Bool} {size : ℕ} {s s' : Unit}
    (h : readsTransaction blake3 serialized checkPartialHash index size s = some s') :
    index + size ≤ serialized.length := by
  unfold readsTransaction at h
  split at h
  · next t hread =>
    have h₂ := after_check (after_check hread)
    obtain ⟨part, hpart, -⟩ := bind_eq_ok.mp h₂
    exact (slice_eq_ok hpart).1
  · cases h

theorem le_of_readsBlock {size : ℕ} {cache cache' : SessionCache}
    (h : r.readsBlock serialized index size cache = some cache') :
    index + size ≤ serialized.length := by
  unfold readsBlock at h
  split at h
  · next block c hread =>
    obtain ⟨⟨blockData, hslice, -⟩, -⟩ := of_readBlock hread
    exact (slice_eq_ok hslice).1
  · cases h

/-- A list that is returned was cut out piece by piece. -/
theorem ranges_of_deserializeFrom {checkPartialHash : Bool} {sizes : List ℕ}
    {list : List Transaction} (hlength : serialized.length ≤ MAX_VECTOR_SIZE)
    (h : deserializeFrom blake3 serialized checkPartialHash index sizes = .ok list) :
    SizedWalk.ranges (2 ^ 64) MAX_VECTOR_SIZE serialized.length
        (readsTransaction blake3 serialized checkPartialHash) index sizes () =
      SizedWalk.consecutive index sizes := by
  induction sizes generalizing index list with
  | nil => rfl
  | cons size sizes ih =>
    have h₁ := after_check h
    obtain ⟨t, ht, h₂⟩ := bind_eq_ok.mp h₁
    obtain ⟨rest, hrest, -⟩ := bind_eq_ok.mp h₂
    have hreads : readsTransaction blake3 serialized checkPartialHash index size () = some () := by
      rw [readsTransaction, mapError_eq_ok.mp ht]
    rw [SizedWalk.ranges_cons_of_read hreads (le_of_readsTransaction hreads)
      (hlength.trans_lt (by decide)) hlength, ih hrest]
    rfl

theorem ranges_of_readBlocks {sizes : List ℕ} {cache : SessionCache}
    (hlength : serialized.length ≤ MAX_VECTOR_SIZE)
    (h : (r.readBlocks serialized index sizes cache).2.1 = none) :
    SizedWalk.ranges (2 ^ 64) MAX_VECTOR_SIZE serialized.length (r.readsBlock serialized) index
        sizes cache = SizedWalk.consecutive index sizes := by
  induction sizes generalizing index cache with
  | nil => rfl
  | cons size sizes ih =>
    unfold readBlocks at h
    cases hread : (r.readBlock serialized index size).run cache with
    | error e cache' =>
      rw [hread] at h
      cases h
    | ok block cache' =>
      rw [hread] at h
      have hreads : r.readsBlock serialized index size cache = some cache' := by
        rw [readsBlock, hread]
      rw [SizedWalk.ranges_cons_of_read hreads (le_of_readsBlock hreads)
        (hlength.trans_lt (by decide)) hlength, ih h]
      rfl

section
variable (hlength : serialized.length ≤ MAX_VECTOR_SIZE)
include hlength

theorem Transaction.within_range? {startIndex len : ℕ} (hstart : startIndex ≤ serialized.length)
    {range : Range} (h : range ∈ Transaction.range? serialized startIndex len) :
    range.Within serialized.length := by
  unfold Transaction.range? at h
  split_ifs at h
  · exact SizedWalk.within_range? (by unfold MAX_VECTOR_SIZE at *; omega) hstart h
  · cases h

theorem TransactionList.within_ranges (checkPartialHash : Bool) (sizes : List ℕ) (offset : ℕ) :
    ∀ range ∈ TransactionList.ranges blake3 serialized checkPartialHash sizes offset,
      range.Within serialized.length := by
  unfold TransactionList.ranges
  split_ifs with hopens
  · have hless : serialized[offset]? = some 60 := by
      simp only [TransactionList.opens, Bool.and_eq_true, beq_iff_eq] at hopens
      exact hopens.1.1.1
    exact SizedWalk.within_ranges (by unfold MAX_VECTOR_SIZE at *; omega)
      ((Nat.mod_le _ _).trans (List.getElem?_eq_some_iff.mp hless).1) sizes ()
  · exact nofun

theorem BlockReader.within_ranges (sizes : List ℕ) (offset : ℕ) (cache : SessionCache) :
    ∀ range ∈ r.ranges serialized sizes offset cache, range.Within serialized.length := by
  unfold BlockReader.ranges
  split_ifs with hopens
  · have hbracket : serialized[offset]? = some 91 := by
      simp only [BlockReader.opens, Bool.and_eq_true, beq_iff_eq] at hopens
      exact hopens.1
    exact SizedWalk.within_ranges (by unfold MAX_VECTOR_SIZE at *; omega)
      ((Nat.mod_le _ _).trans (List.getElem?_eq_some_iff.mp hbracket).1) sizes cache
  · exact nofun

end

end Within

end SkaleConsensus.Block
