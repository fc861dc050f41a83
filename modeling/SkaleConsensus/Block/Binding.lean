import SkaleConsensus.Block.Proposal
import Mathlib.Data.List.GetD

/-! What the hash of a proposal binds: everything but its signature.

The hasher is collision free on what it is fed for the two proposals that are compared,
and on nothing else: it is fed the header, the transactions and, level by level, the
pairs of the Merkle tree. -/
namespace SkaleConsensus.Block

/-! ### The Merkle tree -/

section Merkle
variable (blake3 : Bytes → Hash)

/-- The vector with its last hash doubled if their number is odd. -/
def evened (hashes : List Hash) : List Hash :=
  if hashes.length % 2 = 1 then hashes ++ [hashes.getLastD []] else hashes

/-- What the hasher is fed for one level. -/
def mergeInputs (hashes : List Hash) : List Bytes :=
  (List.range (hashes.length / 2)).map fun j => hashes.getD (2 * j) [] ++ hashes.getD (2 * j + 1) []

def levelAbove (hashes : List Hash) : List Hash := (mergeInputs (evened hashes)).map blake3

/-- What the hasher is fed by the `while` loop. -/
def merkleFed : ℕ → List Hash → List Bytes
  | 0, _ => []
  | fuel + 1, hashes =>
    if 1 < hashes.length then
      mergeInputs (evened hashes) ++ merkleFed fuel (levelAbove blake3 hashes)
    else []

variable {blake3}

/-- After `k` turns the vector starts with `k` hashes of the next level, and the pairs
still to be read are those it had. -/
theorem foldl_merge (hashes : List Hash) (k : ℕ) (hk : k ≤ hashes.length / 2) :
    (List.range k).foldl
      (fun v j => v.set j (merkleTreeMerge blake3 (v.getD (2 * j) []) (v.getD (2 * j + 1) [])))
      hashes =
    ((List.range k).map fun j =>
      merkleTreeMerge blake3 (hashes.getD (2 * j) []) (hashes.getD (2 * j + 1) [])) ++
      hashes.drop k := by
  induction k with
  | zero => rfl
  | succ k ih =>
    rw [List.range_succ, List.foldl_append, ih (by omega), List.map_append, List.append_assoc]
    have hlength : ((List.range k).map fun j => merkleTreeMerge blake3 (hashes.getD (2 * j) [])
        (hashes.getD (2 * j + 1) [])).length = k := by
      rw [List.length_map, List.length_range]
    generalize (List.range k).map _ = done at hlength ⊢
    have hread : ∀ i, k ≤ i → (done ++ hashes.drop k).getD i [] = hashes.getD i [] := by
      intro i hi
      rw [List.getD_append_right _ _ _ _ (hlength.trans_le hi), hlength, List.getD_eq_getElem?_getD,
        List.getElem?_drop, Nat.add_sub_cancel' hi, List.getD_eq_getElem?_getD]
    obtain ⟨next, hrest⟩ : ∃ next, hashes.drop k = next :: hashes.drop (k + 1) :=
      ⟨_, List.drop_eq_getElem_cons (by omega)⟩
    simp only [List.foldl_cons, List.foldl_nil, List.map_cons, List.map_nil, List.singleton_append]
    rw [hread _ (by omega), hread _ (by omega), List.set_append_right _ _ hlength.le, hlength,
      Nat.sub_self, hrest, List.set_cons_zero]

theorem take_mergeLevel (hashes : List Hash) :
    (mergeLevel blake3 hashes).take (hashes.length / 2) = (mergeInputs hashes).map blake3 := by
  unfold mergeLevel
  rw [foldl_merge hashes _ le_rfl, mergeInputs, List.map_map]
  exact List.take_left' (by rw [List.length_map, List.length_range])

theorem merkleLoop_succ (fuel : ℕ) (hashes : List Hash) :
    merkleLoop blake3 (fuel + 1) hashes =
      if 1 < hashes.length then merkleLoop blake3 fuel (levelAbove blake3 hashes) else hashes := by
  unfold levelAbove
  rw [← take_mergeLevel]
  rfl

theorem length_evened (hashes : List Hash) :
    (evened hashes).length = 2 * ((hashes.length + 1) / 2) := by
  unfold evened
  split_ifs with hodd
  · rw [List.length_append, List.length_singleton]
    omega
  · omega

theorem length_levelAbove (hashes : List Hash) :
    (levelAbove blake3 hashes).length = (hashes.length + 1) / 2 := by
  rw [levelAbove, List.length_map, mergeInputs, List.length_map, List.length_range, length_evened]
  omega

def Digests (hashes : List Hash) : Prop := ∀ hash ∈ hashes, hash.length = HASH_LEN

theorem Digests.evened {hashes : List Hash} (h : Digests hashes) (hne : hashes ≠ []) :
    Digests (evened hashes) := by
  unfold Block.evened
  split_ifs
  · intro hash hmem
    rcases List.mem_append.mp hmem with hmem | hmem
    · exact h hash hmem
    · rw [List.mem_singleton.mp hmem, List.getLastD_eq_getLast?, List.getLast?_eq_some_getLast hne]
      exact h _ (List.getLast_mem hne)
  · exact h

theorem digests_levelAbove (hdigest : Hasher blake3) (hashes : List Hash) :
    Digests (levelAbove blake3 hashes) := by
  intro hash hmem
  obtain ⟨input, -, rfl⟩ := List.mem_map.mp hmem
  exact hdigest input

theorem digests_hashes (hdigest : Hasher blake3) (list : List Transaction) :
    Digests (list.map (Transaction.hash blake3)) := by
  intro hash hmem
  obtain ⟨t, -, rfl⟩ := List.mem_map.mp hmem
  exact hdigest t.data

theorem eq_of_evened {l l' : List Hash} (hlength : l.length = l'.length)
    (h : evened l = evened l') : l = l' := by
  unfold evened at h
  rw [← hlength] at h
  split_ifs at h
  · exact (List.append_inj h hlength).1
  · exact h

/-- A level of whole pairs can be read off its inputs. -/
theorem eq_of_mergeInputs {l l' : List Hash} (hl : Digests l) (hl' : Digests l')
    (hlength : l.length = l'.length) (heven : l.length % 2 = 0)
    (h : mergeInputs l = mergeInputs l') :
    l = l' := by
  have hpair : ∀ j < l.length / 2, l.getD (2 * j) [] = l'.getD (2 * j) [] ∧
      l.getD (2 * j + 1) [] = l'.getD (2 * j + 1) [] := by
    intro j hj
    unfold mergeInputs at h
    rw [← hlength] at h
    have hinput := List.map_inj_left.mp h j (List.mem_range.mpr hj)
    refine List.append_inj hinput ?_
    rw [List.getD_eq_getElem _ _ (by omega), List.getD_eq_getElem _ _ (by omega),
      hl _ (List.getElem_mem _), hl' _ (List.getElem_mem _)]
  refine List.ext_getElem hlength fun i hi hi' => ?_
  rw [← List.getD_eq_getElem l [] hi, ← List.getD_eq_getElem l' [] hi']
  rcases Nat.mod_two_eq_zero_or_one i with hi₀ | hi₁
  · rw [← Nat.div_add_mod i 2, hi₀]
    exact (hpair (i / 2) (by omega)).1
  · rw [← Nat.div_add_mod i 2, hi₁]
    exact (hpair (i / 2) (by omega)).2

/-- A function that is injective on the members of two lists tells them apart. -/
theorem eq_of_map_eq {α β : Type} {f : α → β} {l l' : List α}
    (hinj : ∀ a ∈ l, ∀ b ∈ l', f a = f b → a = b) (h : l.map f = l'.map f) : l = l' := by
  induction l generalizing l' with
  | nil => exact (List.map_eq_nil_iff.mp h.symm).symm
  | cons a l ih =>
    cases l' with
    | nil => cases h
    | cons b l' =>
      obtain ⟨hhead, htail⟩ := List.cons.inj h
      rw [hinj a List.mem_cons_self b List.mem_cons_self hhead]
      congr 1
      exact ih (fun x hx y hy => hinj x (List.mem_cons_of_mem _ hx) y (List.mem_cons_of_mem _ hy))
        htail

/-- A level of one hash is its own top. -/
theorem eq_of_headD {l l' : List Hash} (hlength : l.length = l'.length) (hone : l.length ≤ 1)
    (h : l.headD [] = l'.headD []) : l = l' := by
  match l, l', hlength, hone, h with
  | [], [], _, _, _ => rfl
  | [a], [b], _, _, h => exact congrArg (· :: []) h

/-- The top of the tree binds its leaves. -/
theorem eq_of_merkleLoop {fuel : ℕ} {l l' : List Hash}
    (hdigest : Hasher blake3) (hl : Digests l) (hl' : Digests l')
    (hlength : l.length = l'.length) (hfuel : l.length ≤ fuel + 1)
    (hfree : ∀ a ∈ merkleFed blake3 fuel l, ∀ b ∈ merkleFed blake3 fuel l',
      blake3 a = blake3 b → a = b)
    (h : (merkleLoop blake3 fuel l).headD [] = (merkleLoop blake3 fuel l').headD []) : l = l' := by
  induction fuel generalizing l l' with
  | zero => exact eq_of_headD hlength hfuel h
  | succ fuel ih =>
    rw [merkleLoop_succ, merkleLoop_succ, ← hlength] at h
    unfold merkleFed at hfree
    rw [← hlength] at hfree
    by_cases hmore : 1 < l.length
    · simp only [if_pos hmore] at h hfree
      have hne : l ≠ [] := List.ne_nil_of_length_pos (by omega)
      have hne' : l' ≠ [] := List.ne_nil_of_length_pos (by omega)
      have habove : levelAbove blake3 l = levelAbove blake3 l' := by
        refine ih (digests_levelAbove hdigest l) (digests_levelAbove hdigest l') ?_ ?_ ?_ h
        · rw [length_levelAbove, length_levelAbove, hlength]
        · rw [length_levelAbove]
          omega
        · exact fun a ha b hb =>
            hfree a (List.mem_append_right _ ha) b (List.mem_append_right _ hb)
      have hinputs := eq_of_map_eq
        (fun a ha b hb => hfree a (List.mem_append_left _ ha) b (List.mem_append_left _ hb)) habove
      refine eq_of_evened hlength
        (eq_of_mergeInputs (hl.evened hne) (hl'.evened hne') ?_ ?_ hinputs)
      · rw [length_evened, length_evened, hlength]
      · rw [length_evened]
        exact Nat.mul_mod_right 2 _
    · rw [if_neg hmore, if_neg hmore] at h
      exact eq_of_headD hlength (by omega) h

theorem length_merkleLoop {fuel : ℕ} {l : List Hash} (hne : l ≠ [])
    (hdigest : Hasher blake3) (hl : Digests l) :
    ((merkleLoop blake3 fuel l).headD []).length = HASH_LEN := by
  induction fuel generalizing l with
  | zero =>
    obtain ⟨top, rest, rfl⟩ := List.exists_cons_of_ne_nil hne
    exact hl top List.mem_cons_self
  | succ fuel ih =>
    rw [merkleLoop_succ]
    split_ifs with hmore
    · refine ih (List.ne_nil_of_length_pos ?_) (digests_levelAbove hdigest l)
      rw [length_levelAbove]
      omega
    · obtain ⟨top, rest, rfl⟩ := List.exists_cons_of_ne_nil hne
      exact hl top List.mem_cons_self

end Merkle

/-! ### The state root -/

/-- Big-endian bytes as a number. -/
def fromBeBytes (bytes : Bytes) : ℕ := bytes.foldl (fun acc b => b.toNat + 256 * acc) 0

theorem fromBeBytes_reverse (bytes : Bytes) : fromBeBytes bytes.reverse = fromLeBytes bytes :=
  List.foldl_reverse

theorem fromBeBytes_dropWhile (bytes : Bytes) :
    fromBeBytes (bytes.dropWhile (· == 0)) = fromBeBytes bytes := by
  induction bytes with
  | nil => rfl
  | cons b bytes ih =>
    rw [List.dropWhile_cons]
    split_ifs with hzero
    · rw [ih, beq_iff_eq.mp hzero]
      rfl
    · rfl

theorem fromBeBytes_u256ToBigEndianArray (value : BitVec 256) :
    fromBeBytes (u256ToBigEndianArray value) = value.toNat := by
  have hbytes : fromBeBytes ((leBytes 32 value.toNat).reverse.dropWhile (· == 0)) =
      value.toNat := by
    rw [fromBeBytes_dropWhile, fromBeBytes_reverse, fromLeBytes_leBytes]
    exact Nat.mod_eq_of_lt value.isLt
  unfold u256ToBigEndianArray
  split
  · rename_i hnil
    rw [hnil] at hbytes
    exact hbytes
  · exact hbytes

/-! ### Proposals -/

namespace ProposalFields
variable {blake3 : Bytes → Hash} {a b : ProposalFields}

/-- The Merkle root as it is hashed: nothing if there are no transactions. -/
def rootBytes (blake3 : Bytes → Hash) (a : ProposalFields) : Bytes :=
  (merkleLoop blake3 a.transactionList.length
    (a.transactionList.map (Transaction.hash blake3))).headD []

/-- What the hasher is fed for a proposal: the header, the transactions and the tree. -/
def fed (blake3 : Bytes → Hash) (a : ProposalFields) : List Bytes :=
  a.hashInput blake3 :: (a.transactionList.map Transaction.data ++
    merkleFed blake3 a.transactionList.length
      (a.transactionList.map (Transaction.hash blake3)))

/-- No two inputs that are fed for `a` and for `b` have one hash. -/
def CollisionFree (blake3 : Bytes → Hash) (a b : ProposalFields) : Prop :=
  ∀ x ∈ a.fed blake3, ∀ y ∈ b.fed blake3, blake3 x = blake3 y → x = y

instance : Decidable (CollisionFree blake3 a b) :=
  inferInstanceAs (Decidable (∀ x ∈ _, ∀ y ∈ _, _))

theorem calculateTopMerkleRoot_eq (blake3 : Bytes → Hash) (a : ProposalFields) :
    let hashes := a.transactionList.map (Transaction.hash blake3)
    calculateTopMerkleRoot blake3 hashes = .ok (a.rootBytes blake3) ∨
      ∃ e, calculateTopMerkleRoot blake3 hashes = .error e ∧ a.rootBytes blake3 = [] := by
  unfold rootBytes calculateTopMerkleRoot
  cases a.transactionList with
  | nil => exact .inr ⟨_, rfl, rfl⟩
  | cons t list =>
    dsimp only
    rw [List.length_map]
    exact .inl rfl

theorem hashInput_eq (blake3 : Bytes → Hash) (a : ProposalFields) :
    a.hashInput blake3 =
      leBytes 8 a.proposerIndex ++ (leBytes 8 a.proposerNodeID ++ (leBytes 8 a.schainID ++
        (leBytes 8 a.blockID ++ (leBytes 8 a.transactionList.length ++ (leBytes 8 a.timeStamp ++
          (leBytes 4 a.timeStampMs ++ (leBytes 4 a.transactionList.length ++
            (toHex (u256ToBigEndianArray a.stateRoot) ++ a.rootBytes blake3)))))))) := by
  unfold hashInput
  rcases calculateTopMerkleRoot_eq blake3 a with hroot | ⟨e, hroot, hnil⟩
  · rw [hroot]
    simp only [List.append_assoc]
  · rw [hroot, hnil]
    simp only [List.append_assoc]

theorem length_rootBytes (hdigest : Hasher blake3) (a : ProposalFields) :
    (a.rootBytes blake3).length = if a.transactionList.length = 0 then 0 else HASH_LEN := by
  unfold rootBytes
  split_ifs with hnone
  · rw [List.length_eq_zero_iff.mp hnone]
    rfl
  · refine length_merkleLoop (fun hnil => hnone ?_) hdigest (digests_hashes hdigest _)
    exact List.length_eq_zero_iff.mpr (List.map_eq_nil_iff.mp hnil)

/-- The leaves of the tree bind the transactions. -/
theorem transactionList_eq_of_rootBytes (hdigest : Hasher blake3)
    (hlength : a.transactionList.length = b.transactionList.length)
    (hfree : CollisionFree blake3 a b)
    (h : a.rootBytes blake3 = b.rootBytes blake3) : a.transactionList = b.transactionList := by
  have hleaves : a.transactionList.map (Transaction.hash blake3) =
      b.transactionList.map (Transaction.hash blake3) := by
    unfold rootBytes at h
    rw [← hlength] at h
    refine eq_of_merkleLoop hdigest (digests_hashes hdigest _) (digests_hashes hdigest _) ?_ ?_ ?_ h
    · rw [List.length_map, List.length_map, hlength]
    · rw [List.length_map]
      exact Nat.le_succ _
    · intro x hx y hy
      rw [hlength] at hy
      exact hfree x (List.mem_cons_of_mem _ (List.mem_append_right _ hx)) y
        (List.mem_cons_of_mem _ (List.mem_append_right _ hy))
  refine eq_of_map_eq (fun t ht u hu hhash => ?_) hleaves
  have hdata := hfree t.data
    (List.mem_cons_of_mem _ (List.mem_append_left _ (List.mem_map_of_mem ht))) u.data
    (List.mem_cons_of_mem _ (List.mem_append_left _ (List.mem_map_of_mem hu))) hhash
  cases t
  cases u
  cases hdata
  rfl

/-- Proposals with one hash differ at most in their signatures. -/
theorem eq_of_hash (hdigest : Hasher blake3) (ha : a.Fits) (hb : b.Fits)
    (hfree : CollisionFree blake3 a b) (h : a.hash blake3 = b.hash blake3) :
    b = {a with signature := b.signature} := by
  have hinput := hfree _ List.mem_cons_self _ List.mem_cons_self h
  rw [hashInput_eq, hashInput_eq] at hinput
  obtain ⟨ha₁, ha₂, ha₃, ha₄, ha₅, ha₆, ha₇⟩ := ha
  obtain ⟨hb₁, hb₂, hb₃, hb₄, hb₅, hb₆, hb₇⟩ := hb
  obtain ⟨hindex, h₁⟩ := eq_of_leBytes_append ha₄ hb₄ hinput
  obtain ⟨hnode, h₂⟩ := eq_of_leBytes_append ha₂ hb₂ h₁
  obtain ⟨hschain, h₃⟩ := eq_of_leBytes_append ha₁ hb₁ h₂
  obtain ⟨hblock, h₄⟩ := eq_of_leBytes_append ha₃ hb₃ h₃
  obtain ⟨hcount, h₅⟩ := eq_of_leBytes_append ha₅ hb₅ h₄
  obtain ⟨hstamp, h₆⟩ := eq_of_leBytes_append ha₆ hb₆ h₅
  obtain ⟨hms, h₇⟩ := eq_of_leBytes_append ha₇ hb₇ h₆
  rw [hcount] at h₇
  have h₈ := List.append_cancel_left h₇
  -- The state root has no fixed length; the Merkle root behind it has.
  obtain ⟨hhex, hroot⟩ := List.append_inj' h₈ (by
    rw [length_rootBytes hdigest, length_rootBytes hdigest, hcount])
  have hstate : a.stateRoot = b.stateRoot := by
    apply BitVec.eq_of_toNat_eq
    rw [← fromBeBytes_u256ToBigEndianArray, toHex_injective hhex, fromBeBytes_u256ToBigEndianArray]
  have hlist := transactionList_eq_of_rootBytes hdigest hcount hfree hroot
  cases a
  cases b
  simp_all only

end ProposalFields

theorem BlockProposal.eq_of_hash {blake3 : Bytes → Hash} {p q : BlockProposal}
    (hdigest : Hasher blake3)
    (hfree : p.CollisionFree blake3 q.toProposalFields) (h : p.hash blake3 = q.hash blake3)
    (hsignature : p.signature = q.signature) : p = q := by
  have hfields := ProposalFields.eq_of_hash hdigest p.fits q.fits hfree h
  rw [← hsignature] at hfields
  cases p
  cases q
  cases hfields
  rfl

/-- The hash commits to every other field, and to the transactions in their order. -/
theorem BlockProposal.fields_eq_of_hash (blake3 : Bytes → Hash)
    (hdigest : ∀ x, (blake3 x).length = HASH_LEN) (p q : BlockProposal)
    (hfree : p.CollisionFree blake3 q.toProposalFields) (h : p.hash blake3 = q.hash blake3) :
    p.proposerIndex = q.proposerIndex ∧ p.proposerNodeID = q.proposerNodeID ∧
      p.schainID = q.schainID ∧ p.blockID = q.blockID ∧ p.timeStamp = q.timeStamp ∧
      p.timeStampMs = q.timeStampMs ∧ p.stateRoot = q.stateRoot ∧
      p.transactionList = q.transactionList := by
  have hfields := ProposalFields.eq_of_hash hdigest p.fits q.fits hfree h
  rw [hfields]
  exact ⟨rfl, rfl, rfl, rfl, rfl, rfl, rfl, rfl⟩

/-- A digest for small inputs. -/
def residue (x : Bytes) : Hash := leBytes HASH_LEN (fromLeBytes x % (2 ^ 255 - 19))

/-- Three transactions: the last is doubled in the tree. -/
def threeFields (signature : Bytes) : ProposalFields where
  schainID := 1
  proposerNodeID := 12
  blockID := 1
  proposerIndex := 2
  transactionList := [⟨[7], by decide⟩, ⟨[8], by decide⟩, ⟨[7], by decide⟩]
  stateRoot := 5
  timeStamp := MODERN_TIME + 1
  timeStampMs := 0
  signature := signature

def signedOnce : BlockProposal :=
  ⟨threeFields [1], by decide, by decide, by decide, by decide⟩

def signedAgain : BlockProposal :=
  ⟨threeFields [2], by decide, by decide, by decide, by decide⟩

/-- Two proposals that differ in the signature. -/
theorem fields_eq_signedAgain :
    signedOnce ≠ signedAgain ∧ signedOnce.hash residue = signedAgain.hash residue ∧
      signedOnce.transactionList = signedAgain.transactionList := by
  have hhash : signedOnce.hash residue = signedAgain.hash residue := by decide +kernel
  obtain ⟨-, -, -, -, -, -, -, hlist⟩ := BlockProposal.fields_eq_of_hash residue
    (fun _ => length_leBytes _ _) signedOnce signedAgain (by decide +kernel) hhash
  exact ⟨by decide, hhash, hlist⟩

end SkaleConsensus.Block
