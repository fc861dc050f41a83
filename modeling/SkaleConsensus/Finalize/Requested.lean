import SkaleConsensus.Finalize.Rejected

/-! Whether the proposal that was downloaded is the one that was asked for.

The hash, the DA signature and the fragments come from the peers. What is put together must be a
proposal of the proposer that was asked for, with its signature; it must have the hash that the
first response gave, and a DA signature that was collected was verified for that hash. The block id
is the one of the header that the peers sent, and it is compared with nothing: a single peer can
answer with a proposal of another block (`requested_iff_named`). -/
namespace SkaleConsensus.Finalize
open Library Block Crypto Proposal

section Definitions
variable (n : Node) (blockId : ℕ) (proposerIndex : SchainIndex) (past : List SessionCache)

/-- `verifyDAProofThresholdSig` took the signature, with the session keys that one of the responses
was read with. -/
def Accepted (text : Bytes) (hash : Hash) : Prop :=
  ∃ keys ∈ past,
    returns (verifyDAProofThresholdSig n.cm ⟨hash, text, blockId, currentTimeStamp⟩) keys = true

/-- Every DA signature that was collected was verified. -/
def Genuine (d : Download) : Prop :=
  ∀ sig ∈ d.daSig, ∃ text hash, sig = .verified text hash ∧ Accepted n blockId past text hash

/-- What `downloadProposal` is to return. -/
structure Requested (d : Download) (p : BlockProposal) : Prop where
  blockID : p.blockID = blockId
  proposerIndex : p.proposerIndex = proposerIndex
  daSig : ∀ sig ∈ d.daSig, ∃ text, sig = .verified text (p.hash n.cm.blake3) ∧
    Accepted n blockId past text (p.hash n.cm.blake3)

def namedBlockID (d : Download) : Option ℕ := do
  let serialized ← d.fragmentList.serialize.toOption
  let headerStr ← (extractHeader serialized).toOption
  let header ← (n.parseBlockHeader n.blockProposalHeader headerStr).toOption
  return header.blockID

end Definitions

section Collected
variable {n : Node} {blockId : ℕ} {proposerIndex : SchainIndex} {past : List SessionCache}
  {s : Reading} {d : Download} {h sig : Bytes}

theorem genuine_readHashAndSig (h sig : Bytes)
    (hs : Genuine n blockId (s.sessionPublicKeys :: past) s.download) :
    Genuine n blockId (s.sessionPublicKeys :: past)
      (finalState (readHashAndSig n blockId h sig) s).download := by
  rw [download_readHashAndSig]
  unfold daSigAfter
  split_ifs
  · intro kept hkept
    obtain ⟨hash, hverified, rfl⟩ := Option.map_eq_some_iff.mp hkept
    exact ⟨sig, hash, rfl, _, List.mem_cons_self, (of_verifiedHash hverified).2⟩
  · exact hs
  · exact hs

theorem genuine_downloadFragment (lastTimeStampS fragmentIndex : ℕ) (js : Json)
    (data : Option Bytes) (random : ℕ) (hs : Genuine n blockId past s.download) :
    Genuine n blockId (s.sessionPublicKeys :: past) (finalState
      (downloadFragment n blockId lastTimeStampS fragmentIndex js data random) s).download := by
  have hlater : Genuine n blockId (s.sessionPublicKeys :: past) s.download := fun sig hsig => by
    obtain ⟨text, hash, heq, keys, hkeys, haccepted⟩ := hs sig hsig
    exact ⟨text, hash, heq, keys, List.mem_cons_of_mem _ hkeys, haccepted⟩
  refine rel_downloadFragment (s := s) (R := fun t t' =>
    Genuine n blockId (s.sessionPublicKeys :: past) t.download →
    Genuine n blockId (s.sessionPublicKeys :: past) t'.download) (fun _ => id)
    (fun h₁ h₂ => h₂ ∘ h₁) genuine_readHashAndSig ?_ _ _ _ _ _ hlater
  intro t fragmentIndex blockSize data random ht
  obtain ⟨_, hadd⟩ := @download_addData n blockId t fragmentIndex blockSize data random
  rw [hadd]
  exact ht

/-! ### Over all responses -/

theorem Responded.matched (hs : Responded n blockId past s) : Matched s.download := by
  induction hs with
  | start h => exact matched_startDownload h
  | respond _ _ _ _ _ _ ih => exact matched_downloadFragment _ _ _ _ _ ih
  | keys _ _ ih => exact ih

theorem Responded.genuine (hs : Responded n blockId past s) :
    Genuine n blockId past s.download := by
  induction hs with
  | start h =>
    have hreturn := after_check h
    cases hreturn
    nofun
  | respond _ _ _ _ _ _ ih => exact genuine_downloadFragment _ _ _ _ _ ih
  | keys _ _ ih => exact ih

theorem named_of_assembleProposal {p : BlockProposal}
    (hassemble : assembleProposal n proposerIndex d = .ok (some p)) :
    namedBlockID n d = some p.blockID := by
  obtain ⟨serialized, hserialize, hread⟩ := (assembled_of_assembleProposal hassemble).read
  obtain ⟨headerStr, hextract, h₁⟩ := bind_eq_ok.mp hread
  have h₂ := after_check h₁
  obtain ⟨header, hparse, h₃⟩ := bind_eq_ok.mp h₂
  obtain ⟨list, h₄⟩ := after_bind h₃
  have h₅ := after_check h₄
  obtain ⟨made, hmake, h₆⟩ := bind_eq_ok.mp h₅
  have hmade : made = p := by
    split_ifs at h₆
    · have h₇ := after_check h₆
      exact Except.ok.inj h₇
    · exact Except.ok.inj h₆
  have hblock : p.blockID = header.blockID := by
    rw [← hmade]
    exact congrArg ProposalFields.blockID (BlockProposal.of_make_eq_ok hmake)
  unfold namedBlockID
  rw [hserialize, hblock]
  show (extractHeader serialized).toOption.bind _ = _
  rw [hextract]
  show (n.parseBlockHeader n.blockProposalHeader headerStr).toOption.bind _ = _
  rw [mapError_eq_ok.mp hparse]
  rfl

/-- Whatever the peers answer, and whatever `downloadProposal` returns then: it is null or the
proposal that was asked for exactly if the header that the peers sent, where all fragments are
there, names the block that was asked for. The proposer and the DA signature are right in any
case. -/
theorem requested_iff_named (hs : Responded n blockId past s) {result : Option BlockProposal}
    (hresult : assembleProposal n proposerIndex s.download = .ok result) :
    (∀ p ∈ result, Requested n blockId proposerIndex past s.download p) ↔
      (s.download.fragmentList.isComplete = true →
        namedBlockID n s.download = some blockId) := by
  rw [← (assembleProposal_eq_ok hresult).1]
  cases result with
  | none => exact ⟨nofun, nofun⟩
  | some p =>
    rw [named_of_assembleProposal hresult]
    constructor
    · intro hrequested _
      rw [(hrequested p rfl).blockID]
    · rintro hnamed _ ⟨⟩
      refine ⟨Option.some.inj (hnamed rfl), (assembled_of_assembleProposal hresult).proposerIndex,
        fun sig hsig => ?_⟩
      obtain ⟨text, hash, rfl, haccepted⟩ := hs.genuine sig hsig
      rw [hash_of_assembleProposal hs.matched hresult hsig]
      exact ⟨text, rfl, haccepted⟩

end Collected

/-! ### The proposal of another block -/

/-- The header of a response with the proposal of node 2 for block 1, with or without its DA
signature. -/
def answer (daSig : Bytes) (i : ℕ) : Json :=
  .object [("status", .number 1), ("fragmentSize", .number (.ofNat (fragment i).length)),
    ("blockSize", .number 13), ("blockHash", .string (toHex (offeredHash 1))),
    ("daSig", .string daSig)]

/-- Node 1 when it starts to download, and when it has the fragments `1` to `i`. -/
def downloadStarted (blockId : ℕ) : Reading :=
  {opened with download := {opened.download with fragmentList := .empty blockId 3}}

def answered (blockId : ℕ) (daSig : Bytes) : ℕ → Reading
  | 0 => downloadStarted blockId
  | i + 1 => finalState (downloadFragment nodeOne blockId 0 (i + 1) (answer daSig (i + 1))
      (some (fragment (i + 1))) 0) (answered blockId daSig i)

/-- The session keys before each answer. -/
def keysBefore (blockId : ℕ) (daSig : Bytes) : ℕ → List SessionCache
  | 0 => []
  | i + 1 => (answered blockId daSig i).sessionPublicKeys :: keysBefore blockId daSig i

theorem responded_answered (blockId : ℕ) (daSig : Bytes) (i : ℕ) :
    Responded nodeOne blockId (keysBefore blockId daSig i) (answered blockId daSig i) := by
  induction i with
  | zero => exact .start rfl
  | succ i ih => exact .respond _ _ _ _ _ ih

/-- Node 1 asks for block 1. -/
theorem requested_answered :
    ∃ p, assembleProposal nodeOne 2 (answered 1 daProof 3).download = .ok (some p) ∧
      (answered 1 daProof 3).download.daSig.isSome ∧
      Requested nodeOne 1 2 (keysBefore 1 daProof 3) (answered 1 daProof 3).download p := by
  obtain ⟨result, hresult, hsome, hsig, hnamed⟩ :
      ∃ result, assembleProposal nodeOne 2 (answered 1 daProof 3).download = .ok result ∧
        result.isSome = true ∧ (answered 1 daProof 3).download.daSig.isSome = true ∧
        namedBlockID nodeOne (answered 1 daProof 3).download = some 1 :=
    exists_ok (by decide +kernel)
  obtain ⟨p, rfl⟩ := Option.isSome_iff_exists.mp hsome
  exact ⟨p, hresult, hsig,
    (requested_iff_named (responded_answered 1 daProof 3) hresult).mpr (fun _ => hnamed) p rfl⟩

/-- Node 1 asks for block 2, and a peer answers with the proposal for block 1. -/
theorem returned_for_other_block :
    Responded nodeOne 2 (keysBefore 2 [] 3) (answered 2 [] 3) ∧
    ∃ result, assembleProposal nodeOne 2 (answered 2 [] 3).download = .ok result ∧
      ¬ ∀ p ∈ result, Requested nodeOne 2 2 (keysBefore 2 [] 3) (answered 2 [] 3).download p := by
  refine ⟨responded_answered 2 [] 3, ?_⟩
  obtain ⟨result, hresult, hblock⟩ :
      ∃ result, assembleProposal nodeOne 2 (answered 2 [] 3).download = .ok result ∧
        result.map (fun p => p.blockID) = some 1 :=
    exists_ok (by decide +kernel)
  refine ⟨result, hresult, fun hrequested => ?_⟩
  obtain ⟨p, rfl, hone⟩ := Option.map_eq_some_iff.mp hblock
  rw [(hrequested p rfl).blockID] at hone
  cases hone

end SkaleConsensus.Finalize
