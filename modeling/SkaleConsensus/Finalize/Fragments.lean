import SkaleConsensus.Finalize.Downloader
import SkaleConsensus.Finalize.Held

/-! Cutting a proposal into fragments, and putting them together.

A node that is asked for a fragment takes the proposal if it has a DA proof for it, else
the committed block, and cuts what `serializeProposal` returns. The list of a downloader
to which fragments of one text are added, in any order, gives that text. -/
namespace SkaleConsensus.Finalize
open Library Block Crypto Proposal OrderedMap

/-! ### The server -/

section Server
variable {r : BlockReader} (dump : Json → Bytes)

def fragmentStandardSize (blockSize totalFragments : ℕ) : ℕ :=
  if blockSize % totalFragments = 0 then blockSize / totalFragments
  else blockSize / totalFragments + 1

/-- `BlockProposal::getFragment`, for an index from one on. Reading past the end of the
vector, which the source leaves undefined, throws here, as a range of negative length
does there. -/
def Held.getFragment (x : Held r) (totalFragments index : ℕ) :
    Except String BlockProposalFragment := do
  checkArgument (decide (0 < totalFragments)) "_totalFragments > 0"
  checkArgument (decide (index ≤ totalFragments)) "_index <= _totalFragments"
  let sp ← x.serializeProposal dump
  let startIndex := fragmentStandardSize sp.length totalFragments * (index - 1)
  let data ← slice sp startIndex
    (if index = totalFragments then sp.length - startIndex
      else fragmentStandardSize sp.length totalFragments)
  BlockProposalFragment.make totalFragments {
    blockId := x.proposal.blockID
    fragmentIndex := index
    data := 60 :: data ++ [62]
    blockSize := sp.length
    blockHash := toHex (x.proposal.hash r.cm.blake3) }

/-- What a node has for the block and the proposer of a request: the proposal, the DA
proof for it, and the committed block with its DA signature. -/
structure Shelf (r : BlockReader) where
  proposal : Option (Held r)
  daProof : Option Bytes
  committedBlock : Option (Held r × Bytes)

/-- The substatus of a refusal. -/
inductive Refusal where
  | invalidFragmentIndex
  | invalidProposerIndex
  | clientAskingForIncorrectProposerIndex
  | dontHaveProposal
deriving DecidableEq, Repr

inductive FinalizeResponse where
  | disconnect (substatus : Refusal)
  | proceed (fragment : BlockProposalFragment) (daSig : Bytes)
deriving DecidableEq, Repr

def Shelf.choose (s : Shelf r) (proposerIndex : SchainIndex) : Except Refusal (Held r × Bytes) :=
  match s.proposal, s.daProof with
  | some proposal, some daSig => pure (proposal, daSig)
  | _, _ =>
    match s.committedBlock with
    | some (block, daSig) =>
      if block.proposal.proposerIndex ≠ proposerIndex then
        throw .clientAskingForIncorrectProposerIndex
      else pure (block, daSig)
    | none => throw .dontHaveProposal

/-- `CatchupServerAgent::createBlockFinalizeResponse`. The bound of the proposer index is
not checked: the second test is made of the fragment index again. -/
def createBlockFinalizeResponse (nodeCount : ℕ) (s : Shelf r) (fragmentIndex : ℕ)
    (proposerIndex : SchainIndex) : Except String FinalizeResponse :=
  if fragmentIndex < 1 ∨ nodeCount - 1 < fragmentIndex then
    pure (.disconnect .invalidFragmentIndex)
  else if proposerIndex < 1 ∨ nodeCount < fragmentIndex then
    pure (.disconnect .invalidProposerIndex)
  else match s.choose proposerIndex with
    | .error substatus => pure (.disconnect substatus)
    | .ok (proposal, daSig) => do
      checkState (!daSig.isEmpty) "!daSig.empty()"
      let fragment ← proposal.getFragment dump (nodeCount - 1) fragmentIndex
      return .proceed fragment daSig

end Server

/-! ### Cutting and joining -/

/-- What the fragment with the index holds between its brackets. -/
def piece (bytes : Bytes) (totalFragments index : ℕ) : Bytes :=
  let startIndex := fragmentStandardSize bytes.length totalFragments * (index - 1)
  (bytes.drop startIndex).take
    (if index = totalFragments then bytes.length - startIndex
      else fragmentStandardSize bytes.length totalFragments)

/-- The standard size leaves something for the last fragment. -/
def Fragmentable (blockSize totalFragments : ℕ) : Prop :=
  0 < totalFragments ∧
    fragmentStandardSize blockSize totalFragments * (totalFragments - 1) < blockSize

instance (blockSize totalFragments : ℕ) : Decidable (Fragmentable blockSize totalFragments) :=
  inferInstanceAs (Decidable (_ ∧ _))

section Pieces
variable {bytes : Bytes} {totalFragments index : ℕ}

/-- The pieces but the last are one after the other. -/
theorem flatMap_piece {k : ℕ} (hk : k < totalFragments) :
    (List.range' 1 k).flatMap (piece bytes totalFragments) =
      bytes.take (fragmentStandardSize bytes.length totalFragments * k) := by
  induction k with
  | zero => rw [Nat.mul_zero, List.take_zero]; rfl
  | succ k ih =>
    rw [List.range'_1_concat, List.flatMap_append, ih (by omega), Nat.mul_succ, List.take_add,
      List.flatMap_singleton]
    unfold piece
    dsimp only
    rw [if_neg (by omega), Nat.add_sub_cancel_left]

/-- The pieces make up the whole. -/
theorem flatMap_piece_eq (h : 0 < totalFragments) :
    (List.range' 1 totalFragments).flatMap (piece bytes totalFragments) = bytes := by
  obtain ⟨k, rfl⟩ : ∃ k, totalFragments = k + 1 := ⟨totalFragments - 1, by omega⟩
  rw [List.range'_1_concat, List.flatMap_append, flatMap_piece (Nat.lt_succ_self k),
    List.flatMap_singleton]
  unfold piece
  dsimp only
  rw [if_pos (Nat.add_comm 1 k), Nat.add_sub_cancel_left, ← List.length_drop, List.take_length,
    List.take_append_drop]

theorem fragmentStandardSize_pos (hbytes : 0 < bytes.length) :
    0 < fragmentStandardSize bytes.length totalFragments := by
  unfold fragmentStandardSize
  split_ifs with hmod
  · rcases Nat.eq_zero_or_pos totalFragments with rfl | hpos
    · rw [Nat.mod_zero] at hmod
      omega
    · exact Nat.div_pos (Nat.le_of_dvd hbytes (Nat.dvd_of_mod_eq_zero hmod)) hpos
  · exact Nat.succ_pos _

/-- Every piece lies within the bytes, and none is empty. -/
theorem Fragmentable.within (h : Fragmentable bytes.length totalFragments) (hindex : 1 ≤ index)
    (htotal : index ≤ totalFragments) :
    let startIndex := fragmentStandardSize bytes.length totalFragments * (index - 1)
    let len := if index = totalFragments then bytes.length - startIndex
      else fragmentStandardSize bytes.length totalFragments
    startIndex + len ≤ bytes.length ∧ 0 < len := by
  obtain ⟨hpos, hlast⟩ := h
  dsimp only
  split_ifs with hend
  · subst hend
    omega
  · have hmul := Nat.mul_le_mul_left (fragmentStandardSize bytes.length totalFragments)
      (by omega : index - 1 + 1 ≤ totalFragments - 1)
    rw [Nat.mul_succ] at hmul
    exact ⟨by omega, fragmentStandardSize_pos (by omega)⟩

end Pieces

section GetFragment
variable {r : BlockReader} {dump : Json → Bytes} {x : Held r} {totalFragments index : ℕ}
  {f : BlockProposalFragment}

/-- The fragment of what a node serves. -/
def Held.fragment (dump : Json → Bytes) (x : Held r) (totalFragments index : ℕ) :
    BlockProposalFragment where
  blockId := x.proposal.blockID
  fragmentIndex := index
  data := 60 :: piece (x.kept dump) totalFragments index ++ [62]
  blockSize := (x.kept dump).length
  blockHash := toHex (x.proposal.hash r.cm.blake3)

theorem toHex_ne_nil_of_digest {hash : Hash} (h : hash.length = HASH_LEN) : toHex hash ≠ [] := by
  cases hash with
  | nil => cases h
  | cons b rest => exact List.cons_ne_nil _ _

/-- No check throws if what is served can be cut. -/
theorem Held.getFragment_of_fragmentable {bytes : Bytes}
    (hbytes : x.serializeProposal dump = .ok bytes)
    (hdigest : Hasher r.cm.blake3) (hblock : 0 < x.proposal.blockID)
    (h : Fragmentable bytes.length totalFragments) (hindex : 1 ≤ index)
    (htotal : index ≤ totalFragments) :
    x.getFragment dump totalFragments index = .ok {
      blockId := x.proposal.blockID
      fragmentIndex := index
      data := 60 :: piece bytes totalFragments index ++ [62]
      blockSize := bytes.length
      blockHash := toHex (x.proposal.hash r.cm.blake3) } := by
  obtain ⟨hwithin, hpos⟩ := h.within hindex htotal
  have hlength : 0 < (piece bytes totalFragments index).length := by
    unfold piece
    rw [List.length_take, List.length_drop]
    omega
  unfold Held.getFragment
  refine checkArgument_bind_eq_ok.mpr ⟨decide_eq_true h.1, ?_⟩
  refine checkArgument_bind_eq_ok.mpr ⟨decide_eq_true htotal, ?_⟩
  refine bind_eq_ok.mpr ⟨bytes, hbytes, ?_⟩
  refine bind_eq_ok.mpr ⟨piece bytes totalFragments index, ?_, ?_⟩
  · exact if_neg (Nat.not_lt.mpr hwithin)
  unfold BlockProposalFragment.make
  refine checkArgument_bind_eq_ok.mpr ⟨not_isEmpty ?_, ?_⟩
  · exact toHex_ne_nil_of_digest (hdigest _)
  refine checkArgument_bind_eq_ok.mpr ⟨decide_eq_true h.1, ?_⟩
  refine checkArgument_bind_eq_ok.mpr ⟨decide_eq_true htotal, ?_⟩
  refine checkArgument_bind_eq_ok.mpr ⟨decide_eq_true hblock, ?_⟩
  refine checkArgument_bind_eq_ok.mpr ⟨decide_eq_true (Nat.succ_pos _), ?_⟩
  rw [if_neg, if_neg, if_neg]
  · rfl
  · rw [List.getLast?_concat]
    exact fun hne => hne rfl
  · exact fun hne => hne rfl
  · rw [List.length_append, List.length_cons, List.length_singleton]
    omega

theorem Held.getFragment_eq (hx : Legible r dump x.proposal)
    (hdigest : Hasher r.cm.blake3) (hblock : 0 < x.proposal.blockID)
    (h : Fragmentable (x.kept dump).length totalFragments) (hindex : 1 ≤ index)
    (htotal : index ≤ totalFragments) :
    x.getFragment dump totalFragments index = .ok (x.fragment dump totalFragments index) :=
  Held.getFragment_of_fragmentable (Held.serializeProposal_eq hx) hdigest hblock h hindex htotal

theorem of_make {f' : BlockProposalFragment}
    (h : BlockProposalFragment.make totalFragments f = .ok f') :
    f' = f ∧ f.blockHash ≠ [] ∧ 0 < f.blockId ∧ 3 ≤ f.data.length := by
  obtain ⟨⟨⟩, hhash, h₁⟩ := bind_eq_ok.mp h
  have h₃ := after_check (after_check h₁)
  obtain ⟨hblock, h₄⟩ := checkArgument_bind_eq_ok.mp h₃
  have h₅ := after_check h₄
  have hne : f.blockHash ≠ [] := fun hnil => by
    rw [hnil] at hhash
    cases hhash
  by_cases hshort : f.data.length < 3
  · rw [if_pos hshort] at h₅
    cases h₅
  rw [if_neg hshort] at h₅
  by_cases hless : f.data.head? ≠ some 60
  · rw [if_pos hless] at h₅
    cases h₅
  rw [if_neg hless] at h₅
  by_cases hgreater : f.data.getLast? ≠ some 62
  · rw [if_pos hgreater] at h₅
    cases h₅
  rw [if_neg hgreater] at h₅
  cases h₅
  exact ⟨rfl, hne, of_decide_eq_true hblock, Nat.le_of_not_lt hshort⟩

/-- A fragment that is made is stamped with the size of the whole. -/
theorem of_getFragment (hx : Legible r dump x.proposal)
    (h : x.getFragment dump totalFragments index = .ok f) :
    f.blockSize = (x.kept dump).length ∧ f.blockHash ≠ [] := by
  have h₂ := after_check (after_check h)
  obtain ⟨sp, hserialize, h₃⟩ := bind_eq_ok.mp h₂
  obtain ⟨data, h₄⟩ := after_bind h₃
  rw [Held.serializeProposal_eq hx] at hserialize
  cases hserialize
  obtain ⟨rfl, hhash, -⟩ := of_make h₄
  exact ⟨rfl, hhash⟩

/-- If the last fragment is made, what is served can be cut. -/
theorem fragmentable_of_getFragment {bytes : Bytes} (hbytes : x.serializeProposal dump = .ok bytes)
    (h : x.getFragment dump totalFragments totalFragments = .ok f) :
    0 < x.proposal.blockID ∧ Fragmentable bytes.length totalFragments := by
  obtain ⟨hpos, h₁⟩ := checkArgument_bind_eq_ok.mp h
  have h₂ := after_check h₁
  obtain ⟨sp, hserialize, h₃⟩ := bind_eq_ok.mp h₂
  obtain ⟨data, hslice, h₄⟩ := bind_eq_ok.mp h₃
  rw [hbytes] at hserialize
  cases hserialize
  unfold slice at hslice
  rw [if_pos rfl] at hslice
  split_ifs at hslice with hlong
  cases hslice
  obtain ⟨-, -, hblock, hthree⟩ := of_make h₄
  rw [List.length_append, List.length_cons, List.length_singleton, List.length_take] at hthree
  exact ⟨hblock, of_decide_eq_true hpos, by omega⟩

end GetFragment

/-! ### Putting fragments together -/

namespace BlockProposalFragmentList

/-- Each index up to the total is here or missing, and not both. -/
structure Partitioned (l : BlockProposalFragmentList) : Prop where
  here : ∀ k ∈ l.fragments.keys, 1 ≤ k ∧ k ≤ l.totalFragments
  missing : ∀ k, k ∈ l.missingFragments ↔ (1 ≤ k ∧ k ≤ l.totalFragments) ∧ k ∉ l.fragments.keys
  nodup : l.missingFragments.Nodup
  counted : l.Counted

variable {l l' : BlockProposalFragmentList} {f : BlockProposalFragment} {random next : ℕ}

theorem partitioned_empty (blockID totalFragments : ℕ) :
    (BlockProposalFragmentList.empty blockID totalFragments).Partitioned where
  here := nofun
  missing k := by
    rw [show (BlockProposalFragmentList.empty blockID totalFragments).missingFragments =
      List.range' 1 totalFragments from rfl, List.mem_range'_1]
    exact ⟨fun h => ⟨⟨h.1, Nat.lt_one_add_iff.mp h.2⟩, Finset.notMem_empty k⟩,
      fun h => ⟨h.1.1, Nat.lt_one_add_iff.mpr h.1.2⟩⟩
  nodup := List.nodup_range'
  counted := counted_empty blockID totalFragments

theorem partitioned_fill (hl : l.Partitioned) (hhere : l.fragments.contains f.fragmentIndex = false)
    (hmem : f.fragmentIndex ∈ l.missingFragments) : (fill l f).Partitioned := by
  refine ⟨fun k hk => ?_, fun k => ?_, hl.nodup.erase _, counted_fill hl.counted hhere hmem⟩
  · rcases Finset.mem_insert.mp (keys_emplace l.fragments f.fragmentIndex f.data ▸ hk) with rfl | hk
    · exact ((hl.missing _).mp hmem).1
    · exact hl.here k hk
  · show k ∈ l.missingFragments.erase f.fragmentIndex ↔
      _ ∧ k ∉ (l.fragments.emplace f.fragmentIndex f.data).keys
    rw [hl.nodup.mem_erase_iff, hl.missing, keys_emplace, Finset.mem_insert, not_or]
    exact ⟨fun h => ⟨h.2.1, h.1, h.2.2⟩, fun h => ⟨h.2.1, h.1, h.2.2⟩⟩

/-- What the checks of `insertInPlace` are made of, for a fragment that is not here yet. -/
theorem Partitioned.checks (hl : l.Partitioned) (hindex : 0 < f.fragmentIndex)
    (htotal : f.fragmentIndex ≤ l.totalFragments)
    (hhere : l.fragments.contains f.fragmentIndex = false) (random : ℕ) :
    l.missingFragments.contains f.fragmentIndex = true ∧
      decide ((fill l f).fragments.size ≤ (fill l f).totalFragments) = true ∧
      ((fill l f).isComplete = true →
        (List.range' 1 (fill l f).totalFragments).all (fill l f).fragments.contains = true ∧
          (fill l f).missingFragments.isEmpty = true) ∧
      ((fill l f).isComplete = false → (!(fill l f).missingFragments.isEmpty) = true ∧
        decide (0 < (fill l f).nextIndexToRetrieve random) = true) := by
  have hnot : f.fragmentIndex ∉ l.fragments.keys := fun hkey => by
    rw [contains_iff.mpr hkey] at hhere
    cases hhere
  have hmem := (hl.missing f.fragmentIndex).mpr ⟨⟨hindex, htotal⟩, hnot⟩
  have hfill := partitioned_fill hl hhere hmem
  have hcount : (fill l f).fragments.size + (fill l f).missingFragments.length =
    (fill l f).totalFragments := hfill.counted
  refine ⟨List.contains_iff_mem.mpr hmem, decide_eq_true (by omega), fun hcomplete => ?_,
    fun hcomplete => ?_⟩
  · have hnone : (fill l f).missingFragments = [] :=
      List.eq_nil_of_length_eq_zero (by have := eq_of_beq hcomplete; omega)
    refine ⟨List.all_eq_true.mpr fun k hk => contains_iff.mpr ?_,
      List.isEmpty_iff.mpr hnone⟩
    by_contra hkey
    have hk' := (hfill.missing k).mpr ⟨by have := List.mem_range'_1.mp hk; omega, hkey⟩
    rw [hnone] at hk'
    cases hk'
  · have hsome : (fill l f).missingFragments ≠ [] := fun hnone => by
      rw [hfill.counted.isComplete hnone] at hcomplete
      cases hcomplete
    refine ⟨congrArg not (List.isEmpty_eq_false_iff.mpr hsome), decide_eq_true ?_⟩
    unfold nextIndexToRetrieve
    rw [List.getD_eq_getElem _ _ (Nat.mod_lt _ (List.length_pos_of_ne_nil hsome))]
    exact ((hfill.missing _).mp (List.getElem_mem _)).1.1

theorem Partitioned.exists_adds (hl : l.Partitioned) (hf : Fits l f) (random : ℕ) :
    ∃ next l', Adds l f random next l' := by
  cases hhere : l.fragments.contains f.fragmentIndex with
  | true => exact ⟨_, _, .here hhere rfl rfl⟩
  | false =>
    obtain ⟨hmem, -, -, hincomplete⟩ := hl.checks hf.pos hf.total hhere random
    have hmem := List.contains_iff_mem.mp hmem
    cases hdone : (fill l f).isComplete with
    | true => exact ⟨_, _, .last hhere hmem hdone rfl rfl⟩
    | false =>
      obtain ⟨hsome, hpos⟩ := hincomplete hdone
      exact ⟨_, _, .next hhere hmem hdone ((Bool.not_eq_true' _).mp hsome) (of_decide_eq_true hpos)
        rfl rfl⟩

theorem Partitioned.addFragment (hl : l.Partitioned)
    (h : l.addFragment f random = .ok (next, l')) : l'.Partitioned := by
  cases (addFragment_eq_ok.mp h).2 with
  | here _ _ hlist => exact hlist ▸ ⟨hl.here, hl.missing, hl.nodup, hl.counted⟩
  | last hnew hmem _ _ hlist | next hnew hmem _ _ _ _ hlist =>
    exact hlist ▸ partitioned_fill hl hnew hmem

end BlockProposalFragmentList

/-- A list to which fragments of one proposal were added: those that are here hold `data`. -/
structure Collected (data : ℕ → Bytes) (blockID totalFragments blockSize : ℕ)
    (blockHash : Bytes) (l : BlockProposalFragmentList) : Prop extends l.Partitioned where
  blockID : l.blockID = blockID
  total : l.totalFragments = totalFragments
  same : l.blockHash ≠ [] → l.blockHash = blockHash ∧ l.blockSize = blockSize
  data : ∀ e ∈ l.fragments.entries, e.2 = data e.1

section Collect
variable {data : ℕ → Bytes} {blockID totalFragments blockSize index : ℕ} {blockHash : Bytes}
  {l : BlockProposalFragmentList} {f : BlockProposalFragment}

theorem collected_empty :
    Collected data blockID totalFragments blockSize blockHash (.empty blockID totalFragments) :=
  ⟨BlockProposalFragmentList.partitioned_empty _ _, rfl, rfl, fun h => absurd rfl h, nofun⟩

theorem stamp_of_addFragment {l' : BlockProposalFragmentList} {random next : ℕ}
    (h : l.addFragment f random = .ok (next, l')) :
    l'.blockHash = f.blockHash ∧ l'.blockSize = f.blockSize ∧
      (l.blockHash ≠ [] → l.blockHash = f.blockHash ∧ l.blockSize = f.blockSize) := by
  obtain ⟨hfits, hadds⟩ := addFragment_eq_ok.mp h
  cases hadds with
  | here _ _ hlist | last _ _ _ _ hlist | next _ _ _ _ _ _ hlist =>
    subst hlist
    exact ⟨rfl, rfl, hfits.same⟩

/-- Adding a fragment keeps the list as it should be. -/
theorem Collected.add (hl : Collected data blockID totalFragments blockSize blockHash l)
    (hindex : 1 ≤ index) (htotal : index ≤ totalFragments) (random : ℕ) :
    ∃ next l', l.addFragment ⟨blockID, index, data index, blockSize, blockHash⟩ random =
      .ok (next, l') ∧ Collected data blockID totalFragments blockSize blockHash l' := by
  have hfits : Fits l ⟨blockID, index, data index, blockSize, blockHash⟩ :=
    ⟨hl.blockID.symm, hindex, hl.total.symm ▸ htotal, hl.same⟩
  obtain ⟨next, l', hadds⟩ := hl.exists_adds hfits random
  have hadd := addFragment_eq_ok.mpr ⟨hfits, hadds⟩
  have hpartitioned := hl.toPartitioned.addFragment hadd
  cases hadds with
  | here _ _ hlist =>
    subst hlist
    exact ⟨next, _, hadd, hpartitioned, hl.blockID, hl.total, fun _ => ⟨rfl, rfl⟩, hl.data⟩
  | last _ _ _ _ hlist | next _ _ _ _ _ _ hlist =>
    subst hlist
    refine ⟨next, _, hadd, hpartitioned, hl.blockID, hl.total, fun _ => ⟨rfl, rfl⟩, fun e he => ?_⟩
    rcases mem_emplace he with rfl | he
    · rfl
    · exact hl.data e he

theorem Collected.missing_of_add (hl : Collected data blockID totalFragments blockSize blockHash l)
    {random next k : ℕ} {l' : BlockProposalFragmentList}
    (hadd : l.addFragment f random = .ok (next, l')) (hk : k ∈ l'.missingFragments) :
    k ∈ l.missingFragments ∧ k ≠ f.fragmentIndex := by
  cases (addFragment_eq_ok.mp hadd).2 with
  | here hhere _ hlist =>
    subst hlist
    exact ⟨hk, fun heq => ((hl.missing k).mp hk).2 (heq ▸ contains_iff.mp hhere)⟩
  | last _ _ _ _ hlist | next _ _ _ _ _ _ hlist =>
    subst hlist
    exact ⟨List.mem_of_mem_erase hk, fun heq => (hl.nodup.mem_erase_iff.mp hk).1 heq⟩

theorem Collected.serialize (hl : Collected data blockID totalFragments blockSize blockHash l)
    (hcomplete : l.isComplete = true) {bytes : Bytes}
    (hbytes : (List.range' 1 totalFragments).flatMap (fun k => ((data k).drop 1).dropLast) = bytes)
    (hbrace : bytes[8]? = some 123) (hlast : bytes.getLast? = some 62) :
    l.serialize = .ok bytes := by
  have hsize : l.fragments.size = totalFragments := (eq_of_beq hcomplete).trans hl.total
  have hentries : l.fragments.entries.flatMap (fun item => (item.2.drop 1).dropLast) = bytes := by
    have hkeys := keys_eq_range' (fun e he => hl.total ▸ hl.here e.1 (mem_keys.mpr ⟨e.2, he⟩)) hsize
    rw [← hbytes, ← hkeys, List.flatMap_map]
    exact List.flatMap_congr fun e he => by rw [hl.data e he]
  unfold BlockProposalFragmentList.serialize
  refine checkState_bind_eq_ok.mpr ⟨hcomplete, ?_⟩
  dsimp only
  rw [hentries]
  refine bind_eq_ok.mpr ⟨123, by rw [byteAt, hbrace]; rfl, bind_eq_ok.mpr ⟨(), rfl, ?_⟩⟩
  exact checkState_bind_eq_ok.mpr ⟨beq_iff_eq.mpr hlast, rfl⟩

end Collect

end SkaleConsensus.Finalize
