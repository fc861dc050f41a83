import SkaleConsensus.Block.Binding
import SkaleConsensus.Library.PairedTree

/-! The Merkle root of a list of hashes.

`calculateTopMerkleRoot` writes each level over the front of the vector it still reads the level
below from. It writes at `j` and reads from `2 * j` on, so that what it reads is what the level
below was (`foldl_merge`), and the last hash is the value of the tree over the list. -/
namespace SkaleConsensus.Block
open Library

variable {blake3 : Bytes → Hash}

theorem evened_cons_cons (a b : Hash) (rest : List Hash) :
    evened (a :: b :: rest) = a :: b :: evened rest := by
  have hparity : (a :: b :: rest).length % 2 = rest.length % 2 := Nat.add_mod_right rest.length 2
  unfold evened
  rw [hparity]
  split_ifs with hodd
  · -- A rest of odd length has a last hash, and it is that of the whole.
    obtain ⟨c, rest', rfl⟩ : ∃ c rest', rest = c :: rest' :=
      List.exists_cons_of_length_pos (by omega)
    rfl
  · rfl

theorem mergeInputs_cons_cons (a b : Hash) (rest : List Hash) :
    mergeInputs (a :: b :: rest) = (a ++ b) :: mergeInputs rest := by
  have hhalf : (a :: b :: rest).length / 2 = rest.length / 2 + 1 := Nat.add_div_right _ Nat.two_pos
  unfold mergeInputs
  rw [hhalf, List.range_succ_eq_map, List.map_cons, List.map_map]
  rfl

theorem levelAbove_eq_pairUp (hashes : List Hash) :
    levelAbove blake3 hashes = pairUp (merkleTreeMerge blake3) hashes := by
  induction hashes using pairUp.induct with
  | case1 => rfl
  | case2 a => simp [levelAbove, evened, mergeInputs, pairUp, merkleTreeMerge]
  | case3 a b rest ih =>
    unfold levelAbove at ih ⊢
    rw [evened_cons_cons, mergeInputs_cons_cons, List.map_cons, ih]
    rfl

theorem merkleLoop_eq_top {fuel : ℕ} (first : Hash) (rest : List Hash)
    (hfuel : rest.length ≤ fuel) :
    merkleLoop blake3 fuel (first :: rest) = [top (merkleTreeMerge blake3) first rest] := by
  induction fuel generalizing first rest with
  | zero =>
    obtain rfl := List.eq_nil_of_length_eq_zero (Nat.le_zero.mp hfuel)
    rw [top]
    rfl
  | succ fuel ih =>
    rw [merkleLoop_succ, levelAbove_eq_pairUp]
    cases rest with
    | nil =>
      rw [top]
      rfl
    | cons second rest =>
      have hlength : (pairUp (merkleTreeMerge blake3) rest).length ≤ fuel := by
        rw [length_pairUp]
        simp only [List.length_cons] at hfuel
        omega
      rw [if_pos (by simp), pairUp, ih _ _ hlength, top]

/-- The loop in place computes the root of the Merkle tree. -/
theorem calculateTopMerkleRoot_eq_eval (blake3 : Bytes → Hash) (first : Hash) (rest : List Hash) :
    calculateTopMerkleRoot blake3 (first :: rest) =
      .ok ((PairedTree.ofLeaves first rest).eval (merkleTreeMerge blake3)) := by
  have hloop : merkleLoop blake3 (first :: rest).length (first :: rest) =
      [top (merkleTreeMerge blake3) first rest] :=
    merkleLoop_eq_top first rest (Nat.le_succ _)
  rw [PairedTree.eval_ofLeaves]
  unfold calculateTopMerkleRoot
  rw [hloop]
  rfl

end SkaleConsensus.Block
