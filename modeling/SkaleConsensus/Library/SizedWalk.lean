import Mathlib.Data.List.Basic

/-! Walking over a buffer by a list of sizes, with machine arithmetic.

The walk keeps an index, adds the next size to it modulo `M`, compares the sum with the length of
the buffer and cuts out the range in between, which fails for sizes above `maxSize`; `read` says
whether what stands there is accepted, so that the walk goes on behind it. The comparison keeps the
end of a range within the buffer, and a sum that wraps around needs a size that cannot be cut out
(`within_ranges`). -/
namespace SkaleConsensus.Library

/-- The part of a buffer from `start` up to `stop`. -/
structure Range where
  start : ℕ
  stop : ℕ
deriving DecidableEq

def Range.Within (length : ℕ) (range : Range) : Prop :=
  range.start ≤ range.stop ∧ range.stop ≤ length

namespace SizedWalk
variable {σ : Type} (M maxSize length : ℕ) (read : ℕ → ℕ → σ → Option σ)

/-- The range that a size stands for, after the comparison. -/
def range? (index size : ℕ) : Option Range :=
  if (index + size) % M ≤ length ∧ size ≤ maxSize then some ⟨index, (index + size) % M⟩ else none

/-- The ranges that are cut out, up to the first that is not accepted. -/
def ranges : ℕ → List ℕ → σ → List Range
  | _, [], _ => []
  | index, size :: sizes, s =>
    match range? M maxSize length index size with
    | none => []
    | some range =>
      range :: match read index size s with
        | none => []
        | some s' => ranges range.stop sizes s'

/-- Ranges of these sizes behind each other. -/
def consecutive : ℕ → List ℕ → List Range
  | _, [] => []
  | index, size :: sizes => ⟨index, index + size⟩ :: consecutive (index + size) sizes

variable {M maxSize length read} {index : ℕ}

/-- The walk goes on behind what is accepted. -/
theorem ranges_cons_of_read {size : ℕ} {s s' : σ} (hread : read index size s = some s')
    (hle : index + size ≤ length) (hlength : length < M) (hmax : length ≤ maxSize)
    (sizes : List ℕ) :
    ranges M maxSize length read index (size :: sizes) s =
      ⟨index, index + size⟩ :: ranges M maxSize length read (index + size) sizes s' := by
  have hrange : range? M maxSize length index size = some ⟨index, index + size⟩ := by
    rw [range?, Nat.mod_eq_of_lt (Nat.lt_of_le_of_lt hle hlength), if_pos ⟨hle, by omega⟩]
  simp only [ranges, hrange, hread]

/-- A size that can be cut out does not wrap around. -/
theorem within_range? (hlength : length + maxSize < M) {size : ℕ} (hindex : index ≤ length)
    {range : Range} (h : range ∈ range? M maxSize length index size) : range.Within length := by
  unfold range? at h
  split_ifs at h with hcut
  · cases h
    have hsum : (index + size) % M = index + size := Nat.mod_eq_of_lt (by omega)
    exact ⟨by rw [hsum]; exact Nat.le_add_right _ _, hcut.1⟩
  · cases h

theorem within_ranges (hlength : length + maxSize < M) (hindex : index ≤ length) (sizes : List ℕ)
    (s : σ) :
    ∀ range ∈ ranges M maxSize length read index sizes s, range.Within length := by
  induction sizes generalizing index s with
  | nil => exact nofun
  | cons size sizes ih =>
    unfold ranges
    split
    · exact nofun
    · next range hrange =>
      have hwithin := within_range? hlength hindex hrange
      refine List.forall_mem_cons.mpr ⟨hwithin, ?_⟩
      split
      · exact nofun
      · exact ih hwithin.2 _

end SizedWalk

end SkaleConsensus.Library
