import SkaleConsensus.Finalize.Commit
import SkaleConsensus.Finalize.Fragments

/-! Fragments of one proposal that come from different nodes.

The downloader adds the fragments of different nodes to one list if their hash and size
are the same, but the hash says nothing about the signature, and nothing about the text
that a downloaded proposal was read from. `reassembles_iff_alike` says when it can be
relied on; a proposer that signs one hash twice has it fail. -/
namespace SkaleConsensus.Finalize
open Library Block Crypto Proposal Held

/-! ### Fragments of two nodes -/

section Agreement
variable {r : BlockReader}

/-- The node serves `x` to those who ask for the proposer, with a DA signature. -/
def Shelf.Has (s : Shelf r) (proposerIndex : SchainIndex) (x : Held r) : Prop :=
  ∃ daSig, daSig ≠ [] ∧ s.choose proposerIndex = .ok (x, daSig)

variable (dump : Json → Bytes) (nodeCount : ℕ) (proposerIndex : SchainIndex)

/-- The node sends the fragment when it is asked for the index. -/
def Sends (s : Shelf r) (index : ℕ) (f : BlockProposalFragment) : Prop :=
  ∃ daSig, createBlockFinalizeResponse dump nodeCount s index proposerIndex = .ok (.proceed f daSig)

/-- The lists that a downloader may come to have from what `u` and `v` send, in any order. -/
inductive Collects (u v : Shelf r) (blockID : ℕ) : BlockProposalFragmentList → Prop where
  | empty : Collects u v blockID (.empty blockID (nodeCount - 1))
  | add {l l' : BlockProposalFragmentList} {index random next : ℕ} {f : BlockProposalFragment}
      (hl : Collects u v blockID l)
      (hsends : Sends dump nodeCount proposerIndex u index f ∨
        Sends dump nodeCount proposerIndex v index f)
      (hadd : l.addFragment f random = .ok (next, l')) : Collects u v blockID l'

/-- Both nodes send every fragment, each can be added to what is there, and whatever came
from which node, the fragments make up one proposal with the hash. -/
structure Reassembles (u v : Shelf r) (blockID : ℕ) (hash : Hash) : Prop where
  sent : ∀ index, 1 ≤ index → index ≤ nodeCount - 1 →
    (∃ f, Sends dump nodeCount proposerIndex u index f) ∧
      ∃ f, Sends dump nodeCount proposerIndex v index f
  added : ∀ l index f random, Collects dump nodeCount proposerIndex u v blockID l →
    (Sends dump nodeCount proposerIndex u index f ∨ Sends dump nodeCount proposerIndex v index f) →
    ∃ next l', l.addFragment f random = .ok (next, l')
  whole : ∃ p : BlockProposal, p.hash r.cm.blake3 = hash ∧
    ∀ l, Collects dump nodeCount proposerIndex u v blockID l → l.isComplete = true →
      ∃ bytes, l.serialize = .ok bytes ∧ r.deserializeProposal bytes true = .ok p

variable {dump nodeCount proposerIndex} {u v s : Shelf r} {x y : Held r}

theorem sends_iff (hs : s.Has proposerIndex x) (hproposer : 0 < proposerIndex) {index : ℕ}
    {f : BlockProposalFragment} :
    Sends dump nodeCount proposerIndex s index f ↔ (1 ≤ index ∧ index ≤ nodeCount - 1) ∧
      x.getFragment dump (nodeCount - 1) index = .ok f := by
  obtain ⟨daSig, hsig, hchoose⟩ := hs
  unfold Sends createBlockFinalizeResponse
  by_cases hindex : 1 ≤ index ∧ index ≤ nodeCount - 1
  · have hproceed : ∀ sig, (do
        checkState (!daSig.isEmpty) "!daSig.empty()"
        let fragment ← x.getFragment dump (nodeCount - 1) index
        return FinalizeResponse.proceed fragment daSig : Except String _) = .ok (.proceed f sig) ↔
        x.getFragment dump (nodeCount - 1) index = .ok f ∧ daSig = sig := by
      intro sig
      constructor
      · intro h
        have h₁ := after_check h
        obtain ⟨fragment, hfragment, h₂⟩ := bind_eq_ok.mp h₁
        cases h₂
        exact ⟨hfragment, rfl⟩
      · rintro ⟨hfragment, rfl⟩
        exact checkState_bind_eq_ok.mpr ⟨not_isEmpty hsig,
          bind_eq_ok.mpr ⟨f, hfragment, rfl⟩⟩
    have hsecond : ¬(proposerIndex < 1 ∨ nodeCount < index) := by
      rintro (hzero | hlarge)
      · exact absurd hproposer (Nat.not_lt.mpr (Nat.le_of_lt_succ hzero))
      · omega
    rw [if_neg (by omega), if_neg hsecond, hchoose]
    simp only [hproceed, exists_and_left, exists_eq', and_true, hindex, true_and]
  · rw [if_pos (by omega)]
    refine ⟨?_, fun h => absurd h.1 hindex⟩
    rintro ⟨sig, h⟩
    cases h

theorem sends_fragment_iff (hs : s.Has proposerIndex x) (hproposer : 0 < proposerIndex)
    (hx : Legible r dump x.proposal) (hdigest : Hasher r.cm.blake3)
    (hblock : 0 < x.proposal.blockID) (hcut : Fragmentable (x.kept dump).length (nodeCount - 1))
    (index : ℕ) (f : BlockProposalFragment) :
    Sends dump nodeCount proposerIndex s index f ↔ (1 ≤ index ∧ index ≤ nodeCount - 1) ∧
      f = x.fragment dump (nodeCount - 1) index := by
  rw [sends_iff hs hproposer]
  refine and_congr_right fun hindex => ?_
  rw [getFragment_eq hx hdigest hblock hcut hindex.1 hindex.2]
  exact ⟨fun h => (Except.ok.inj h).symm, fun h => h ▸ rfl⟩

/-- A list that was collected from nodes that send the fragments of `x`. -/
theorem collected_of_collects {l : BlockProposalFragmentList}
    (hsends : ∀ index f, (Sends dump nodeCount proposerIndex u index f ∨
      Sends dump nodeCount proposerIndex v index f) →
      (1 ≤ index ∧ index ≤ nodeCount - 1) ∧ f = x.fragment dump (nodeCount - 1) index)
    (hl : Collects dump nodeCount proposerIndex u v x.proposal.blockID l) :
    Collected (fun k => 60 :: piece (x.kept dump) (nodeCount - 1) k ++ [62]) x.proposal.blockID
      (nodeCount - 1) (x.kept dump).length (toHex (x.proposal.hash r.cm.blake3)) l := by
  induction hl with
  | empty => exact collected_empty
  | @add l l' index random next f hl hsent hadd ih =>
    obtain ⟨⟨hindex, htotal⟩, rfl⟩ := hsends index f hsent
    obtain ⟨next', l'', hadd', hl''⟩ := ih.add hindex htotal random
    have hsame := hadd.symm.trans hadd'
    cases hsame
    exact hl''

/-- Nodes that serve the same bytes of one proposal send fragments that go together. -/
theorem reassembles_of_kept_eq (hu : u.Has proposerIndex x) (hv : v.Has proposerIndex y)
    (hproposer : 0 < proposerIndex) (hblock : 0 < x.proposal.blockID)
    (hx : Legible r dump x.proposal) (hy : Legible r dump y.proposal)
    (hdigest : Hasher r.cm.blake3) (hkept : x.kept dump = y.kept dump)
    (hcut : Fragmentable (x.kept dump).length (nodeCount - 1)) :
    Reassembles dump nodeCount proposerIndex u v x.proposal.blockID
      (x.proposal.hash r.cm.blake3) := by
  have hread := deserializeProposal_kept hx hdigest
  have hsame : y.proposal = x.proposal := by
    have hread' := deserializeProposal_kept hy hdigest
    rw [← hkept, hread] at hread'
    exact (Except.ok.inj hread').symm
  have hfragment : y.fragment dump (nodeCount - 1) = x.fragment dump (nodeCount - 1) := by
    unfold Held.fragment
    rw [hkept, hsame]
  have hsendsx := sends_fragment_iff hu hproposer hx hdigest hblock hcut
  have hsendsy := sends_fragment_iff hv hproposer hy hdigest (hsame ▸ hblock) (hkept ▸ hcut)
  rw [hfragment] at hsendsy
  have hsends : ∀ index f, (Sends dump nodeCount proposerIndex u index f ∨
      Sends dump nodeCount proposerIndex v index f) →
      (1 ≤ index ∧ index ≤ nodeCount - 1) ∧ f = x.fragment dump (nodeCount - 1) index :=
    fun index f h => h.elim (hsendsx index f).mp (hsendsy index f).mp
  obtain ⟨hbrace, hlast, -⟩ := of_deserializeProposal hread
  constructor
  · exact fun index hindex htotal =>
      ⟨⟨_, (hsendsx index _).mpr ⟨⟨hindex, htotal⟩, rfl⟩⟩,
        ⟨_, (hsendsy index _).mpr ⟨⟨hindex, htotal⟩, rfl⟩⟩⟩
  · intro l index f random hl hsent
    obtain ⟨⟨hindex, htotal⟩, rfl⟩ := hsends index f hsent
    obtain ⟨next, l', hadd, -⟩ := (collected_of_collects hsends hl).add hindex htotal random
    exact ⟨next, l', hadd⟩
  · refine ⟨x.proposal, rfl, fun l hl hcomplete => ⟨x.kept dump, ?_, hread⟩⟩
    refine (collected_of_collects hsends hl).serialize hcomplete ?_ hbrace hlast
    refine Eq.trans (List.flatMap_congr fun k _ => ?_) (flatMap_piece_eq hcut.1)
    exact List.dropLast_concat

/-- If the fragments of two nodes go together, the last one could be cut. -/
theorem fragmentable_of_reassembles {blockID : ℕ} {hash : Hash} (hu : u.Has proposerIndex x)
    (hproposer : 0 < proposerIndex) (hx : Legible r dump x.proposal)
    (h : Reassembles dump nodeCount proposerIndex u v blockID hash) :
    Fragmentable (x.kept dump).length (nodeCount - 1) := by
  rcases Nat.eq_zero_or_pos (nodeCount - 1) with hnone | hpos
  · -- A list of no fragments is complete and holds no header.
    obtain ⟨p, -, hwhole⟩ := h.whole
    obtain ⟨bytes, hserialize, -⟩ := hwhole _ .empty (by rw [hnone]; rfl)
    rw [hnone] at hserialize
    cases hserialize
  · obtain ⟨⟨f, hsent⟩, -⟩ := h.sent (nodeCount - 1) hpos le_rfl
    exact (fragmentable_of_getFragment (serializeProposal_eq hx)
      ((sends_iff hu hproposer).mp hsent).2).2

/-- Two nodes serve proposals with one hash. `serializeProposal` returns the same bytes at
both, and what they send as fragments makes up one proposal, exactly when the proposals
have one signature, neither was downloaded in another text than the code writes, or both
in the same, and the bytes can be cut into so many fragments. -/
theorem reassembles_iff_alike (hu : u.Has proposerIndex x) (hv : v.Has proposerIndex y)
    (hproposer : 0 < proposerIndex) (hblock : 0 < x.proposal.blockID)
    (hx : Legible r dump x.proposal) (hy : Legible r dump y.proposal)
    (hdigest : ∀ b, (r.cm.blake3 b).length = HASH_LEN)
    (hfree : x.proposal.CollisionFree r.cm.blake3 y.proposal.toProposalFields)
    (hhash : x.proposal.hash r.cm.blake3 = y.proposal.hash r.cm.blake3) :
    ((∃ bytes, x.serializeProposal dump = .ok bytes ∧ y.serializeProposal dump = .ok bytes) ∧
      Reassembles dump nodeCount proposerIndex u v x.proposal.blockID
        (x.proposal.hash r.cm.blake3)) ↔
    Held.Alike dump x y ∧ Fragmentable (x.kept dump).length (nodeCount - 1) := by
  rw [serializeProposal_eq hx, serializeProposal_eq hy,
    ← kept_eq_iff_alike hx hy hdigest hfree hhash]
  constructor
  · rintro ⟨⟨bytes, hxbytes, hybytes⟩, hreassembles⟩
    exact ⟨(Except.ok.inj hxbytes).trans (Except.ok.inj hybytes).symm,
      fragmentable_of_reassembles hu hproposer hx hreassembles⟩
  · rintro ⟨hkept, hcut⟩
    exact ⟨⟨y.kept dump, by rw [hkept], rfl⟩,
      reassembles_of_kept_eq hu hv hproposer hblock hx hy hdigest hkept hcut⟩

/-- Fragments go together only if the nodes serve as many bytes. -/
theorem length_eq_of_reassembles {blockID : ℕ} {hash : Hash} (hu : u.Has proposerIndex x)
    (hv : v.Has proposerIndex y) (hproposer : 0 < proposerIndex) (hx : Legible r dump x.proposal)
    (hy : Legible r dump y.proposal)
    (h : Reassembles dump nodeCount proposerIndex u v blockID hash) :
    (x.kept dump).length = (y.kept dump).length := by
  have hcount := (fragmentable_of_reassembles hu hproposer hx h).1
  obtain ⟨⟨f, hf⟩, ⟨g, hg⟩⟩ := h.sent 1 le_rfl hcount
  obtain ⟨next, l, hfirst⟩ := h.added _ 1 f 0 .empty (.inl hf)
  obtain ⟨next', l', hsecond⟩ := h.added l 1 g 0 (.add .empty (.inl hf) hfirst) (.inr hg)
  obtain ⟨hfsize, hfhash⟩ := of_getFragment hx ((sends_iff hu hproposer).mp hf).2
  obtain ⟨hgsize, -⟩ := of_getFragment hy ((sends_iff hv hproposer).mp hg).2
  obtain ⟨hhash, hsize, -⟩ := stamp_of_addFragment hfirst
  obtain ⟨-, -, hsame⟩ := stamp_of_addFragment hsecond
  have hstamped := (hsame (hhash ▸ hfhash)).2
  rw [← hfsize, ← hgsize, ← hsize, hstamped]

end Agreement

/-! ### Two signatures of one hash -/

/-- What node 2 proposes for block 1, hashed. -/
def twiceSignedHash : Hash :=
  ProposalFields.hash ⟨1, 12, 1, 2, [], 0, MODERN_TIME + 1, 0, []⟩ byteSum

/-- Its two signatures: one is written with a leading zero. -/
def signatureOf (zero : Bool) : Bytes :=
  letter 12 ++ (if zero then [48] else []) ++ toHex twiceSignedHash

def twiceSigned (zero : Bool) : BlockProposal :=
  {BlockProposal.first with
    signature := signatureOf zero
    signed := List.cons_ne_nil _ _}

def twiceSignedText (zero : Bool) : Bytes := (twiceSigned zero).headerText byteSum printHeader

/-- Node 1 of four, which takes both signatures. -/
def besideTwoSignatures : Node :=
  {Node.ofFour with
    cm := {fourSigners [] [] with
      blake3 := byteSum
      verifyECDSA := fun key _ sig =>
        key == letter 12 && [signatureOf false, signatureOf true].contains sig}
    json := fun text =>
      if text = twiceSignedText false then
        some ((twiceSigned false).createProposalHeader byteSum).addFields
      else if text = twiceSignedText true then
        some ((twiceSigned true).createProposalHeader byteSum).addFields
      else none}

def twiceSignedRequest (zero : Bool) : BlockProposalRequestHeader where
  schainID := 1
  blockID := 1
  proposerIndex := 2
  proposerNodeID := 12
  timeStamp := MODERN_TIME + 1
  timeStampMs := 0
  hash := toHex twiceSignedHash
  signature := signatureOf zero
  txCount := 0
  stateRoot := 0

theorem received_twiceSigned (zero : Bool) :
    receivedBlockProposal besideTwoSignatures (twiceSignedRequest zero) [] =
      .ok (twiceSigned zero) :=
  bind_eq_ok.mpr ⟨12, rfl, BlockProposal.make_eq_ok_iff.mpr rfl⟩

theorem hash_twiceSigned (zero : Bool) : (twiceSigned zero).hash byteSum = twiceSignedHash := rfl

theorem verify_twiceSigned (zero : Bool) :
    (twiceSigned zero).verifyProposalECDSA besideTwoSignatures.cm (twiceSignedRequest zero).hash
      (twiceSignedRequest zero).signature = .ok () := by
  refine BlockProposal.verifyProposalECDSA_eq_ok (by decide : 2 ≠ 0)
    (congrArg toHex (hash_twiceSigned zero)) ?_ (List.cons_ne_nil _ _) ?_
  · exact toHex_ne_nil_of_digest (length_leBytes 32 _)
  · cases zero <;> decide +kernel

/-- The proposal as node 1 and its peers got it, with one signature or the other. -/
def pushedTwice (zero : Bool) : Held besideTwoSignatures.toBlockReader :=
  .pushed (received_twiceSigned zero) (verify_twiceSigned zero)

/-- The text of the header, evaluated. -/
theorem twiceSignedText_ends (zero : Bool) :
    (twiceSignedText zero).head? = some 123 ∧ (twiceSignedText zero).getLast? = some 125 ∧
      (twiceSignedText zero).length = if zero then 286 else 285 := by
  revert zero
  decide +kernel

theorem json_twiceSignedText (zero : Bool) :
    besideTwoSignatures.json (twiceSignedText zero) =
      some ((twiceSigned zero).createProposalHeader byteSum).addFields := by
  have hne : twiceSignedText true ≠ twiceSignedText false := by
    intro heq
    have hlength := congrArg List.length heq
    rw [(twiceSignedText_ends true).2.2, (twiceSignedText_ends false).2.2] at hlength
    cases hlength
  unfold besideTwoSignatures
  dsimp only
  cases zero with
  | false => rw [if_pos rfl]
  | true => rw [if_neg hne, if_pos rfl]

theorem legible_twiceSigned (zero : Bool) :
    Legible besideTwoSignatures.toBlockReader printHeader (twiceSigned zero) := by
  obtain ⟨hhead, hlast, hlength⟩ := twiceSignedText_ends zero
  refine ⟨⟨hhead, hlast, ?_, json_twiceSignedText zero, ?_, ?_⟩, ?_⟩
  · show 16 < (twiceSignedText zero).length
    rw [hlength]
    cases zero <;> decide
  · show besideTwoSignatures.u256 (textBytes (toString (0 : BitVec 256).toNat)) = some 0
    decide +kernel
  · show (leBytes 8 _ ++ twiceSignedText zero ++ [60, 62]).length < 2 ^ 64
    rw [List.length_append, List.length_append, length_leBytes, hlength]
    cases zero <;> decide
  · show (twiceSignedText zero).length + 8 ≤ MAX_BUFFER_SIZE
    rw [hlength]
    cases zero <;> decide

def withProof (zero : Bool) : Shelf besideTwoSignatures.toBlockReader :=
  ⟨some (pushedTwice zero), some (textBytes "da"), none⟩

def withBlock (zero : Bool) : Shelf besideTwoSignatures.toBlockReader :=
  ⟨none, none, some ((pushedTwice zero).committed, textBytes "da")⟩

theorem has_withProof (zero : Bool) : (withProof zero).Has 2 (pushedTwice zero) :=
  ⟨textBytes "da", by decide, rfl⟩

theorem has_withBlock (zero : Bool) : (withBlock zero).Has 2 (pushedTwice zero).committed :=
  ⟨textBytes "da", by decide, rfl⟩

/-- With no transactions the hasher is fed one text, in which no signature is. -/
theorem collisionFree_twiceSigned (zero zero' : Bool) :
    (twiceSigned zero).CollisionFree byteSum (twiceSigned zero').toProposalFields := by
  intro a ha b hb _
  rw [List.mem_singleton.mp ha, List.mem_singleton.mp hb]
  rfl

theorem reassembles_twiceSigned :
    (∃ bytes, (pushedTwice false).serializeProposal printHeader = .ok bytes ∧
      (pushedTwice false).committed.serializeProposal printHeader = .ok bytes) ∧
    Reassembles printHeader 4 2 (withProof false) (withBlock false) 1
      ((twiceSigned false).hash byteSum) :=
  (reassembles_iff_alike (has_withProof false) (has_withBlock false) (by decide)
    (by decide : 0 < 1) (legible_twiceSigned false) (legible_twiceSigned false)
    (fun _ => length_leBytes 32 _) (collisionFree_twiceSigned false false) rfl).mpr
    ⟨⟨rfl, rfl⟩, by decide +kernel⟩

/-- Nodes that were pushed the same proposal with different signatures of its hash serve
different bytes, and what they send cannot be put together. -/
theorem fragments_clash_of_two_signatures :
    (pushedTwice false).proposal.hash byteSum = (pushedTwice true).proposal.hash byteSum ∧
    (withProof false).Has 2 (pushedTwice false) ∧ (withProof true).Has 2 (pushedTwice true) ∧
    (¬ ∃ bytes, (pushedTwice false).serializeProposal printHeader = .ok bytes ∧
      (pushedTwice true).serializeProposal printHeader = .ok bytes) ∧
    ¬ Reassembles printHeader 4 2 (withProof false) (withProof true) 1
      ((twiceSigned false).hash byteSum) := by
  have hlength : ((pushedTwice false).kept printHeader).length ≠
      ((pushedTwice true).kept printHeader).length := by decide +kernel
  refine ⟨rfl, has_withProof false, has_withProof true, ?_, fun h => hlength ?_⟩
  · rintro ⟨bytes, hfalse, htrue⟩
    rw [serializeProposal_eq (legible_twiceSigned false)] at hfalse
    rw [serializeProposal_eq (legible_twiceSigned true)] at htrue
    cases hfalse
    exact hlength (congrArg List.length (Except.ok.inj htrue)).symm
  · exact length_eq_of_reassembles (has_withProof false) (has_withProof true) (by decide)
      (legible_twiceSigned false) (legible_twiceSigned true) h

end SkaleConsensus.Finalize
