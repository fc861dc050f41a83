import SkaleConsensus.Finalize.Reassembly

/-! One proposal, cut by a node and put together by another.

The standard size of a fragment is the size of the proposal over the number of fragments,
rounded up, so the fragments before the last can use up all there is. `roundTrips_iff`:
where they do not, the fragments go together in any order and however often each is
received; where they do, `getFragment` reads past the end of the vector or makes a
fragment that is too short. -/
namespace SkaleConsensus.Finalize
open Library Block Crypto Proposal

section RoundTrip
variable {r : BlockReader} (dump : Json → Bytes) (x : Held r) (totalFragments : ℕ)

/-- The fragments with these indices, cut and added one after the other; the second number
is the random number of the call. -/
def Held.transfer : List (ℕ × ℕ) → BlockProposalFragmentList →
    Except String BlockProposalFragmentList
  | [], l => pure l
  | (index, random) :: rest, l => do
    let fragment ← x.getFragment dump totalFragments index
    let (_, l') ← l.addFragment fragment random
    Held.transfer rest l'

/-- Every fragment lies within the bytes and is made, and the fragments, in any order and
with repetitions, make up the bytes. -/
structure RoundTrips (bytes : Bytes) : Prop where
  inside : ∀ index, 1 ≤ index → index ≤ totalFragments →
    let startIndex := fragmentStandardSize bytes.length totalFragments * (index - 1)
    startIndex ≤ bytes.length ∧ (index < totalFragments →
      startIndex + fragmentStandardSize bytes.length totalFragments ≤ bytes.length)
  made : ∀ index, 1 ≤ index → index ≤ totalFragments →
    ∃ fragment, x.getFragment dump totalFragments index = .ok fragment
  joined : ∀ order : List (ℕ × ℕ), (∀ e ∈ order, 1 ≤ e.1 ∧ e.1 ≤ totalFragments) →
    (∀ index, 1 ≤ index → index ≤ totalFragments → ∃ e ∈ order, e.1 = index) →
    ∃ l, x.transfer dump totalFragments order (.empty x.proposal.blockID totalFragments) = .ok l ∧
      l.isComplete = true ∧ l.serialize = .ok bytes

variable {dump x totalFragments} {bytes : Bytes}

/-- What a fragment holds, brackets included. -/
def bracketed (bytes : Bytes) (totalFragments index : ℕ) : Bytes :=
  60 :: piece bytes totalFragments index ++ [62]

/-- Each fragment that is received is no longer missing. -/
theorem transfer_eq (hbytes : x.serializeProposal dump = .ok bytes)
    (hdigest : Hasher r.cm.blake3) (hblock : 0 < x.proposal.blockID)
    (hcut : Fragmentable bytes.length totalFragments) (order : List (ℕ × ℕ))
    (horder : ∀ e ∈ order, 1 ≤ e.1 ∧ e.1 ≤ totalFragments) {l : BlockProposalFragmentList}
    (hl : Collected (bracketed bytes totalFragments) x.proposal.blockID totalFragments
      bytes.length (toHex (x.proposal.hash r.cm.blake3)) l) :
    ∃ l', x.transfer dump totalFragments order l = .ok l' ∧
      Collected (bracketed bytes totalFragments) x.proposal.blockID totalFragments
        bytes.length (toHex (x.proposal.hash r.cm.blake3)) l' ∧
      ∀ k ∈ l'.missingFragments, k ∈ l.missingFragments ∧ ∀ e ∈ order, e.1 ≠ k := by
  induction order generalizing l with
  | nil => exact ⟨l, rfl, hl, fun k hk => ⟨hk, nofun⟩⟩
  | cons e rest ih =>
    obtain ⟨index, random⟩ := e
    obtain ⟨hindex, htotal⟩ := horder _ List.mem_cons_self
    obtain ⟨next, l₁, hadd, hl₁⟩ := hl.add hindex htotal random
    obtain ⟨l', htransfer, hl', hmissing⟩ :=
      ih (fun e he => horder e (List.mem_cons_of_mem _ he)) hl₁
    refine ⟨l', ?_, hl', fun k hk => ?_⟩
    · exact bind_eq_ok.mpr
        ⟨_, Held.getFragment_of_fragmentable hbytes hdigest hblock hcut hindex htotal,
        bind_eq_ok.mpr ⟨(next, l₁), hadd, htransfer⟩⟩
    · obtain ⟨hk₁, hrest⟩ := hmissing k hk
      obtain ⟨hk₀, hne⟩ := hl.missing_of_add hadd hk₁
      refine ⟨hk₀, fun e he => ?_⟩
      rcases List.mem_cons.mp he with rfl | he
      · exact hne.symm
      · exact hrest e he

/-- A proposal that is served as `bytes` survives being cut and put together exactly when
its block has a positive number and the fragments before the last leave something for
it. -/
theorem roundTrips_iff (hbytes : x.serializeProposal dump = .ok bytes)
    (hdigest : ∀ b, (r.cm.blake3 b).length = HASH_LEN) :
    RoundTrips dump x totalFragments bytes ↔
      0 < x.proposal.blockID ∧ Fragmentable bytes.length totalFragments := by
  obtain ⟨hbrace, hlast⟩ := Held.ends_of_serializeProposal hbytes
  constructor
  · intro h
    rcases Nat.eq_zero_or_pos totalFragments with rfl | hpos
    · -- A list of no fragments is complete and holds no header.
      obtain ⟨l, htransfer, -, hserialize⟩ := h.joined [] nofun (fun index h₁ h₀ => by omega)
      cases htransfer
      cases hserialize
    · obtain ⟨fragment, hfragment⟩ := h.made totalFragments hpos le_rfl
      exact fragmentable_of_getFragment hbytes hfragment
  · rintro ⟨hblock, hcut⟩
    constructor
    · intro index hindex htotal
      obtain ⟨hwithin, -⟩ := hcut.within hindex htotal
      dsimp only at hwithin ⊢
      split_ifs at hwithin with hend
      · exact ⟨by omega, fun hlt => absurd hend hlt.ne⟩
      · exact ⟨by omega, fun _ => hwithin⟩
    · exact fun index hindex htotal =>
        ⟨_, Held.getFragment_of_fragmentable hbytes hdigest hblock hcut hindex htotal⟩
    · intro order horder hall
      obtain ⟨l, htransfer, hl, hmissing⟩ :=
        transfer_eq hbytes hdigest hblock hcut order horder collected_empty
      have hnone : l.missingFragments = [] := by
        refine List.eq_nil_iff_forall_not_mem.mpr fun k hk => ?_
        obtain ⟨⟨hindex, htotal⟩, -⟩ := (hl.missing k).mp hk
        obtain ⟨e, he, heq⟩ := hall k hindex (hl.total ▸ htotal)
        exact (hmissing k hk).2 e he heq
      have hcomplete : l.isComplete = true := hl.counted.isComplete hnone
      refine ⟨l, htransfer, hcomplete, hl.serialize hcomplete ?_ hbrace hlast⟩
      refine Eq.trans (List.flatMap_congr fun k _ => ?_) (flatMap_piece_eq hcut.1)
      exact List.dropLast_concat

end RoundTrip

/-! ### A short proposal among many nodes -/

/-- Among four nodes the proposal is cut into three fragments of at most 99 bytes. -/
theorem roundTrips_among_four :
    RoundTrips printHeader (pushedTwice false) 3 ((pushedTwice false).kept printHeader) :=
  (roundTrips_iff (Held.serializeProposal_eq (legible_twiceSigned false))
    fun _ => length_leBytes 32 _).mpr ⟨by decide, by decide +kernel⟩

/-- Among 22 nodes the standard size of its 295 bytes is 15, the fragment before the last
would end at 300, and the last is not made. -/
theorem last_fragment_past_end_among_twentyTwo :
    (pushedTwice false).serializeProposal printHeader = .ok ((pushedTwice false).kept printHeader) ∧
    ((pushedTwice false).kept printHeader).length = 295 ∧ fragmentStandardSize 295 21 = 15 ∧
    (∀ fragment, (pushedTwice false).getFragment printHeader 21 21 ≠ .ok fragment) ∧
    ¬ RoundTrips printHeader (pushedTwice false) 21 ((pushedTwice false).kept printHeader) := by
  have hserialize := Held.serializeProposal_eq (x := pushedTwice false) (legible_twiceSigned false)
  have hlength : ((pushedTwice false).kept printHeader).length = 295 := by decide +kernel
  have hlast : ∀ fragment, (pushedTwice false).getFragment printHeader 21 21 ≠ .ok fragment := by
    intro fragment hfragment
    have hcut := (fragmentable_of_getFragment hserialize hfragment).2
    rw [hlength] at hcut
    exact absurd hcut (by decide)
  refine ⟨hserialize, hlength, rfl, hlast, fun h => ?_⟩
  obtain ⟨fragment, hfragment⟩ := h.made 21 (by decide) le_rfl
  exact hlast fragment hfragment

end SkaleConsensus.Finalize
