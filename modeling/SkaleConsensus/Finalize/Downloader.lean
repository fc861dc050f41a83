import SkaleConsensus.Proposal.Effects

/-! Downloading a proposal in fragments.

One worker for each other node asks it for fragments of the proposal until all are there,
the block is committed by other means or the proposal and its DA proof were pushed. The
first response fixes the hash of the proposal, the first DA signature among the responses
is verified for it, and the reassembled proposal must have it. -/
namespace SkaleConsensus.Finalize
open Library Block Crypto Proposal

/-- A DA signature as it is passed on: its text and, not in the code, the hash that
`verifyDAProofThresholdSig` took it for; or a `TrivialSignature`. -/
inductive DASignature where
  | verified (text : Bytes) (hash : Hash)
  | trivial
deriving DecidableEq, Repr

def DASignature.toText : DASignature → Except String Bytes
  | .verified text _ => pure text
  | .trivial => throw "State check failed::false"

/-! ### Fragments -/

structure BlockProposalFragment where
  blockId : ℕ
  fragmentIndex : ℕ
  data : Bytes
  blockSize : ℕ
  blockHash : Bytes
deriving DecidableEq, Repr

/-- The constructor of `BlockProposalFragment`. -/
def BlockProposalFragment.make (totalFragments : ℕ) (f : BlockProposalFragment) :
    Except String BlockProposalFragment := do
  checkArgument (!f.blockHash.isEmpty) "!_blockHash.empty()"
  checkArgument (decide (0 < totalFragments)) "_totalFragments > 0"
  checkArgument (decide (f.fragmentIndex ≤ totalFragments)) "_fragmentIndex <= _totalFragments"
  checkArgument (decide (0 < f.blockId)) "_blockId > 0"
  checkArgument (decide (0 < f.data.length)) "_data->size() > 0"
  if f.data.length < 3 then throw "Data fragment too short"
  if f.data.head? ≠ some 60 then throw "Data fragment does not start with <"
  if f.data.getLast? ≠ some 62 then throw "Data fragment does not end with >"
  return f

structure BlockProposalFragmentList where
  blockID : ℕ
  totalFragments : ℕ
  blockHash : Bytes
  blockSize : ℕ
  fragments : OrderedMap ℕ Bytes
  missingFragments : List ℕ

namespace BlockProposalFragmentList

def empty (blockID totalFragments : ℕ) : BlockProposalFragmentList where
  blockID := blockID
  totalFragments := totalFragments
  blockHash := []
  blockSize := 0
  fragments := .empty
  missingFragments := List.range' 1 totalFragments

def isComplete (l : BlockProposalFragmentList) : Bool := l.fragments.size == l.totalFragments

/-- The random number is an argument. -/
def nextIndexToRetrieve (l : BlockProposalFragmentList) (random : ℕ) : ℕ :=
  l.missingFragments.getD (random % l.missingFragments.length) 0

/-- `addFragment`, with the next index to ask for; zero if there is none, and also if the
fragment is here already. -/
def addFragment (l : BlockProposalFragmentList) (f : BlockProposalFragment) (random : ℕ) :
    Except String (ℕ × BlockProposalFragmentList) := do
  checkArgument (f.blockId == l.blockID) "_fragment->getBlockId() == blockID"
  checkArgument (decide (0 < f.fragmentIndex)) "_fragment->getIndex() > 0"
  checkArgument (decide (f.fragmentIndex ≤ l.totalFragments))
    "_fragment->getIndex() <= totalFragments"
  if !l.blockHash.isEmpty then
    checkArgument (l.blockHash == f.blockHash) "blockHash.compare( _fragment->getBlockHash() ) == 0"
    checkArgument (l.blockSize == f.blockSize) "blockSize == ( int64_t ) _fragment->getBlockSize()"
  let l' := {l with blockHash := f.blockHash, blockSize := f.blockSize}
  if l'.fragments.contains f.fragmentIndex then return (0, l')
  checkState (l'.missingFragments.contains f.fragmentIndex) "findIter != missingFragments.end()"
  let l'' := {l' with
    fragments := l'.fragments.emplace f.fragmentIndex f.data
    missingFragments := l'.missingFragments.erase f.fragmentIndex}
  if l''.isComplete then return (0, l'')
  checkState (!l''.missingFragments.isEmpty) "missingFragments.size() > 0"
  checkState (decide (0 < l''.nextIndexToRetrieve random)) "nextIndex > 0"
  return (l''.nextIndexToRetrieve random, l'')

/-- The fragments without their brackets, in order. -/
def serialize (l : BlockProposalFragmentList) : Except String Bytes := do
  checkState l.isComplete "isComplete()"
  let result := l.fragments.entries.flatMap fun item => (item.2.drop 1).dropLast
  let brace ← byteAt result 8
  checkState (brace == 123) "result->at( sizeof( uint64_t ) ) == '\x7b'"
  checkState (result.getLast? == some 62) "result->back() == '>'"
  return result

end BlockProposalFragmentList

/-! ### The downloader -/

/-- A worker thread: at the head of its loop, waiting for a response, or ended. -/
inductive Worker where
  | loop (nextFragment : ℕ)
  | requesting (nextFragment : ℕ)
  | stopped
deriving DecidableEq, Repr

/-- The members of `BlockFinalizeDownloader` that change. -/
structure Download where
  blockHash : Bytes
  daSig : Option DASignature
  fragmentList : BlockProposalFragmentList
  workers : SchainIndex → Worker

/-- What a fragment is read into: the downloader and the cache of session keys. -/
structure Reading where
  sessionPublicKeys : SessionCache
  download : Download

section Downloader
variable (n : Node) (blockId : ℕ) (proposerIndex : SchainIndex)

/-- The constructor, and the start of the threads: one for each node but this one. -/
def startDownload : Except String Download := do
  checkState (decide (1 < n.cm.nodeCount)) "_sChain->getNodeCount() > 1"
  return {
    blockHash := []
    daSig := none
    fragmentList := .empty blockId (n.cm.nodeCount - 1)
    workers := fun dstIndex =>
      if dstIndex ∈ List.range' 1 n.cm.nodeCount ∧ dstIndex ≠ n.me then
        .loop (if n.me < dstIndex then dstIndex - 1 else dstIndex)
      else .stopped }

def readDaSig (blakeHash : Hash) (sig : Bytes) : EStateM String Reading Unit := fun s =>
  let verify := verifyDAProofThresholdSig n.cm ⟨blakeHash, sig, blockId, currentTimeStamp⟩
  match verify.run s.sessionPublicKeys with
  | .error e c => .error e {s with sessionPublicKeys := c}
  | .ok _ c => .ok () {
      sessionPublicKeys := c
      download := {s.download with daSig := some (.verified sig blakeHash)} }

/-- The part of `readBlockFragment` under the lock: hash and DA signature. -/
def readHashAndSig (h sig : Bytes) : EStateM String Reading Unit := do
  let s ← get
  if s.download.blockHash.isEmpty then
    set {s with download := {s.download with blockHash := h}}
  else checkState (h == s.download.blockHash) "h == blockHash"
  if s.download.daSig.isNone && !sig.isEmpty then
    match fromHex h with
    | .error e => throw e
    | .ok blakeHash => readDaSig n blockId blakeHash sig

/-- What `readBlockFragment` takes from the header of a response: sizes, hash and DA
signature. -/
def readResponse (lastTimeStampS : ℕ) (js : Json) : Except String (ℕ × ℕ × Bytes × Bytes) := do
  let fragmentSize ← js.getUint64 "fragmentSize"
  if fragmentSize = 0 then throw "fragmentSize == 0"
  let blockSize ← js.getUint64 "blockSize"
  if blockSize = 0 then throw "blockSize == 0"
  let h ← js.getString "blockHash"
  checkState (!h.isEmpty) "!h.empty()"
  let sig ← if n.verifyDASigsPatch lastTimeStampS then js.getString "daSig"
    else js.maybeGetString "daSig"
  return (fragmentSize, blockSize, h, sig)

/-- The end of `downloadFragment`: the data is made a fragment and added. -/
def addData (fragmentIndex blockSize : ℕ) (data : Bytes) (random : ℕ) :
    EStateM String Reading ℕ := fun s =>
  match BlockProposalFragment.make (n.cm.nodeCount - 1)
      ⟨blockId, fragmentIndex, data, blockSize, s.download.blockHash⟩ with
  | .error e => .error e s
  | .ok fragment =>
    match s.download.fragmentList.addFragment fragment random with
    | .error e => .error e s
    | .ok (next, list) => .ok next {s with download := {s.download with fragmentList := list}}

/-- `downloadFragment` from the response on: its header, and its data if they could be
read. -/
def downloadFragment (lastTimeStampS fragmentIndex : ℕ) (js : Json) (data : Option Bytes)
    (random : ℕ) : EStateM String Reading ℕ := do
  match js.getUint64 "status" with
  | .error e => throw e
  | .ok status =>
    if status = 4 then return 0
    else if status ≠ 1 then throw "Server error in BlockFinalize response:"
    else match readResponse n lastTimeStampS js with
      | .error e => throw e
      | .ok (fragmentSize, blockSize, h, sig) =>
        readHashAndSig n blockId h sig
        match data with
        | none => throw "Could not read blocks"
        | some bytes =>
          if bytes.length ≠ fragmentSize then throw "Could not read blocks"
          else addData n blockId fragmentIndex blockSize bytes random

/-- The rest of `downloadProposal`, when the threads have ended; `none` is `nullptr`. -/
def assembleProposal (d : Download) : Except String (Option BlockProposal) :=
  if d.fragmentList.isComplete then do
    let serialized ← d.fragmentList.serialize
    let block ← n.deserializeProposal serialized true
    checkState (block.proposerIndex == proposerIndex)
      "block->getProposerIndex() == ( uint64_t ) proposerIndex"
    if !d.blockHash.isEmpty then
      let h ← fromHex d.blockHash
      if block.hash n.cm.blake3 ≠ h then throw "Check failed::Incorrect block hash"
    return some block
  else pure none

/-- `BlockFinalizeDownloader::getDaSig`. -/
def getDaSig (d : Download) (timeStampS : ℕ) : Except String DASignature :=
  if n.verifyDASigsPatch timeStampS && d.daSig.isNone then
    throw "Check failed::BlockFinalizeDownloader: block did not include DA sig:"
  else pure (d.daSig.getD .trivial)

end Downloader

/-! ### What was verified and what was downloaded -/

section Matched
variable {n : Node} {blockId : ℕ} {d : Download} {s : Reading} {proposerIndex : SchainIndex}
  {hash : Hash}

/-- A DA signature that was verified is for the hash that the responses gave. -/
def Matched (d : Download) : Prop :=
  ∀ text hash, d.daSig = some (.verified text hash) → fromHex d.blockHash = .ok hash

theorem matched_startDownload (h : startDownload n blockId = .ok d) : Matched d := by
  have hreturn := after_check h
  cases hreturn
  nofun

/-- The hash, if the signature verifies for it. -/
def verifiedHash (n : Node) (blockId : ℕ) (h sig : Bytes) (c : SessionCache) : Option Hash :=
  match fromHex h with
  | .error _ => none
  | .ok blakeHash =>
    if returns (verifyDAProofThresholdSig n.cm ⟨blakeHash, sig, blockId, currentTimeStamp⟩) c then
      some blakeHash
    else none

theorem of_verifiedHash {h sig : Bytes} {c : SessionCache}
    (hsome : verifiedHash n blockId h sig c = some hash) : fromHex h = .ok hash ∧
      returns (verifyDAProofThresholdSig n.cm ⟨hash, sig, blockId, currentTimeStamp⟩) c = true := by
  unfold verifiedHash at hsome
  cases hhash : fromHex h with
  | error e =>
    rw [hhash] at hsome
    cases hsome
  | ok blakeHash =>
    rw [hhash] at hsome
    dsimp only at hsome
    split_ifs at hsome with hreturns
    cases hsome
    exact ⟨rfl, hreturns⟩

/-- The DA signature of a download after a response with this one. -/
def daSigAfter (n : Node) (blockId : ℕ) (h sig : Bytes) (c : SessionCache)
    (daSig : Option DASignature) : Option DASignature :=
  if daSig.isNone && !sig.isEmpty then
    (verifiedHash n blockId h sig c).map fun blakeHash => .verified sig blakeHash
  else daSig

/-- What `readHashAndSig` leaves: a hash that is not the known one is thrown out; any other is
kept, and so is the first signature that verifies for it. -/
theorem download_readHashAndSig (h sig : Bytes) :
    (finalState (readHashAndSig n blockId h sig) s).download =
      if s.download.blockHash.isEmpty || h == s.download.blockHash then
        {s.download with
          blockHash := h
          daSig := daSigAfter n blockId h sig s.sessionPublicKeys s.download.daSig}
      else s.download := by
  have hsig : ∀ t : Reading, (finalState
      (if (t.download.daSig.isNone && !sig.isEmpty) = true then
        match fromHex h with
        | .error e => throw e
        | .ok blakeHash => readDaSig n blockId blakeHash sig
      else pure () : EStateM String Reading Unit) t).download =
        {t.download with
          daSig := daSigAfter n blockId h sig t.sessionPublicKeys t.download.daSig} := by
    intro t
    unfold daSigAfter
    split_ifs with hwanted
    · have hnone := Option.isNone_iff_eq_none.mp (Bool.and_eq_true_iff.mp hwanted).1
      unfold verifiedHash
      cases fromHex h with
      | error e =>
        rw [Option.map_none, ← hnone]
        rfl
      | ok blakeHash =>
        dsimp only
        unfold finalState readDaSig returns result? EStateM.run
        dsimp only
        cases verifyDAProofThresholdSig n.cm ⟨blakeHash, sig, blockId, currentTimeStamp⟩
          t.sessionPublicKeys with
        | error e c =>
          show t.download = {t.download with daSig := none}
          rw [← hnone]
        | ok u c => rfl
    · rfl
  unfold readHashAndSig
  rw [finalState_bind_of_ok (x := get) (a := s) rfl]
  cases s.download.blockHash.isEmpty with
  | true =>
    rw [if_pos rfl, finalState_bind_of_ok (x := set _) (a := ()) rfl]
    exact hsig {s with download := {s.download with blockHash := h}}
  | false =>
    rw [if_neg Bool.false_ne_true]
    cases hsame : h == s.download.blockHash with
    | false => rw [finalState_bind_of_error (checkState_run_of_false rfl _ s)]; rfl
    | true =>
      rw [finalState_bind_of_ok (checkState_run_of_true rfl _ s), hsig s, eq_of_beq hsame]
      rfl

theorem matched_readHashAndSig (h sig : Bytes) (hs : Matched s.download) :
    Matched (finalState (readHashAndSig n blockId h sig) s).download := by
  rw [download_readHashAndSig]
  unfold daSigAfter
  split_ifs with hhash
  · intro text hash hkept
    obtain ⟨_, hverified, heq⟩ := Option.map_eq_some_iff.mp hkept
    cases heq
    exact (of_verifiedHash hverified).1
  · intro text hash hkept
    have hknown := hs text hash hkept
    rcases Bool.or_eq_true_iff.mp hhash with hempty | hsame
    · -- Without a hash nothing was verified.
      rw [List.isEmpty_iff.mp hempty] at hknown
      cases hknown
    · rwa [eq_of_beq hsame]
  · exact hs

/-- A fragment changes the list only. -/
theorem download_addData (fragmentIndex blockSize : ℕ) (data : Bytes) (random : ℕ) :
    ∃ fragmentList,
      (finalState (addData n blockId fragmentIndex blockSize data random) s).download =
        {s.download with fragmentList} := by
  unfold finalState addData EStateM.run
  dsimp only
  cases BlockProposalFragment.make (n.cm.nodeCount - 1)
      ⟨blockId, fragmentIndex, data, blockSize, s.download.blockHash⟩ with
  | error e => exact ⟨_, rfl⟩
  | ok fragment =>
    dsimp only
    cases s.download.fragmentList.addFragment fragment random <;> exact ⟨_, rfl⟩

theorem matched_addData (fragmentIndex blockSize : ℕ) (data : Bytes) (random : ℕ)
    (hs : Matched s.download) :
    Matched (finalState (addData n blockId fragmentIndex blockSize data random) s).download := by
  obtain ⟨_, hadd⟩ := @download_addData n blockId s fragmentIndex blockSize data random
  rw [hadd]
  exact hs

/-- A relation that covers hash and signature, and then the data, covers a response. -/
theorem rel_downloadFragment {R : Reading → Reading → Prop} (hrefl : ∀ t, R t t)
    (htrans : ∀ {a b c}, R a b → R b c → R a c)
    (hhash : ∀ h sig, R s (finalState (readHashAndSig n blockId h sig) s))
    (hdata : ∀ t fragmentIndex blockSize data random,
      R t (finalState (addData n blockId fragmentIndex blockSize data random) t))
    (lastTimeStampS fragmentIndex : ℕ) (js : Json) (data : Option Bytes) (random : ℕ) :
    R s (finalState
      (downloadFragment n blockId lastTimeStampS fragmentIndex js data random) s) := by
  unfold downloadFragment
  cases js.getUint64 "status" with
  | error e => exact hrefl s
  | ok status =>
    dsimp only
    split_ifs
    · exact hrefl s
    · exact hrefl s
    · cases readResponse n lastTimeStampS js with
      | error e => exact hrefl s
      | ok response =>
        obtain ⟨fragmentSize, blockSize, h, sig⟩ := response
        refine finalState_bind_rel htrans (hhash h sig) fun _ t _ => ?_
        cases data with
        | none => exact hrefl t
        | some bytes =>
          dsimp only
          split_ifs
          · exact hrefl t
          · exact hdata t _ _ _ _

theorem matched_downloadFragment (lastTimeStampS fragmentIndex : ℕ) (js : Json)
    (data : Option Bytes) (random : ℕ) (hs : Matched s.download) :
    Matched (finalState (downloadFragment n blockId lastTimeStampS fragmentIndex js data random)
      s).download :=
  rel_downloadFragment (R := fun t t' => Matched t.download → Matched t'.download) (fun _ => id)
    (fun h₁ h₂ => h₂ ∘ h₁) matched_readHashAndSig
    (fun _ _ _ _ _ => matched_addData _ _ _ _) _ _ _ _ _ hs

/-- What `downloadProposal` returns is null, or was put together and checked. -/
structure Assembled (n : Node) (proposerIndex : SchainIndex) (d : Download) (p : BlockProposal) :
    Prop where
  read : ∃ serialized, d.fragmentList.serialize = .ok serialized ∧
    n.deserializeProposal serialized true = .ok p
  proposerIndex : p.proposerIndex = proposerIndex
  hash : d.blockHash.isEmpty = false → fromHex d.blockHash = .ok (p.hash n.cm.blake3)

theorem assembleProposal_eq_ok {result : Option BlockProposal}
    (h : assembleProposal n proposerIndex d = .ok result) :
    result.isSome = d.fragmentList.isComplete ∧ ∀ p ∈ result, Assembled n proposerIndex d p := by
  unfold assembleProposal at h
  split_ifs at h with hcomplete hgiven
  · obtain ⟨serialized, hserialize, h₁⟩ := bind_eq_ok.mp h
    obtain ⟨block, hread, h₂⟩ := bind_eq_ok.mp h₁
    obtain ⟨⟨⟩, hindex, h₃⟩ := bind_eq_ok.mp h₂
    obtain ⟨hash, hhash, h₄⟩ := bind_eq_ok.mp h₃
    by_cases hne : block.hash n.cm.blake3 ≠ hash
    · rw [if_pos hne] at h₄
      cases h₄
    · rw [if_neg hne] at h₄
      cases h₄
      refine ⟨hcomplete.symm, ?_⟩
      rintro _ ⟨⟩
      rw [← not_not.mp hne] at hhash
      exact ⟨⟨serialized, hserialize, hread⟩, eq_of_beq (checkState_eq_ok.mp hindex),
        fun _ => hhash⟩
  · obtain ⟨serialized, hserialize, h₁⟩ := bind_eq_ok.mp h
    obtain ⟨block, hread, h₂⟩ := bind_eq_ok.mp h₁
    obtain ⟨hindex, h₃⟩ := checkState_bind_eq_ok.mp h₂
    cases h₃
    refine ⟨hcomplete.symm, ?_⟩
    rintro _ ⟨⟩
    refine ⟨⟨serialized, hserialize, hread⟩, eq_of_beq hindex,
      fun hsome => ?_⟩
    rw [hsome] at hgiven
    exact absurd rfl hgiven
  · cases h
    exact ⟨(eq_false_of_ne_true hcomplete).symm, nofun⟩

theorem assembled_of_assembleProposal {p : BlockProposal}
    (h : assembleProposal n proposerIndex d = .ok (some p)) : Assembled n proposerIndex d p :=
  (assembleProposal_eq_ok h).2 p rfl

/-- The proposal that was put together is the one the DA signature is for. -/
theorem hash_of_assembleProposal {p : BlockProposal} {text : Bytes} (hd : Matched d)
    (h : assembleProposal n proposerIndex d = .ok (some p))
    (hsig : d.daSig = some (.verified text hash)) : p.hash n.cm.blake3 = hash := by
  have hhash := hd text hash hsig
  cases hempty : d.blockHash.isEmpty with
  | true =>
    rw [List.isEmpty_iff.mp hempty] at hhash
    cases hhash
  | false => exact Except.ok.inj (((assembled_of_assembleProposal h).hash hempty).symm.trans hhash)

theorem daSig_of_getDaSig {timeStampS : ℕ} {text : Bytes}
    (h : getDaSig n d timeStampS = .ok (.verified text hash)) :
    d.daSig = some (.verified text hash) := by
  unfold getDaSig at h
  split_ifs at h
  cases hsig : d.daSig with
  | none =>
    rw [hsig] at h
    cases h
  | some sig =>
    rw [hsig] at h
    rw [← Except.ok.inj h]
    rfl

end Matched

/-! ### How far the download is -/

section Fragments
variable {n : Node} {blockId random next : ℕ} {s : Reading} {l l' : BlockProposalFragmentList}
  {f : BlockProposalFragment}

def BlockProposalFragmentList.Counted (l : BlockProposalFragmentList) : Prop :=
  l.fragments.size + l.missingFragments.length = l.totalFragments

theorem counted_empty (blockID totalFragments : ℕ) :
    (BlockProposalFragmentList.empty blockID totalFragments).Counted :=
  (Nat.zero_add _).trans List.length_range'

theorem BlockProposalFragmentList.Counted.isComplete (hl : l.Counted)
    (hmissing : l.missingFragments = []) : l.isComplete = true := by
  unfold Counted at hl
  rw [hmissing] at hl
  exact beq_iff_eq.mpr hl

def stamp (l : BlockProposalFragmentList) (f : BlockProposalFragment) : BlockProposalFragmentList :=
  {l with blockHash := f.blockHash, blockSize := f.blockSize}

def fill (l : BlockProposalFragmentList) (f : BlockProposalFragment) : BlockProposalFragmentList :=
  {stamp l f with
    fragments := l.fragments.emplace f.fragmentIndex f.data
    missingFragments := l.missingFragments.erase f.fragmentIndex}

/-- The fragment passes the checks of `addFragment`. -/
structure Fits (l : BlockProposalFragmentList) (f : BlockProposalFragment) : Prop where
  blockId : f.blockId = l.blockID
  pos : 0 < f.fragmentIndex
  total : f.fragmentIndex ≤ l.totalFragments
  same : l.blockHash ≠ [] → l.blockHash = f.blockHash ∧ l.blockSize = f.blockSize

/-- What comes of a fragment that passes the checks: it is here already, or it was missing and is
added, and then the next index is zero if the list is complete. -/
inductive Adds (l : BlockProposalFragmentList) (f : BlockProposalFragment) (random next : ℕ)
    (l' : BlockProposalFragmentList) : Prop
  | here (hhere : l.fragments.contains f.fragmentIndex = true) (hnext : next = 0)
      (hlist : l' = stamp l f)
  | last (hnew : l.fragments.contains f.fragmentIndex = false)
      (hmem : f.fragmentIndex ∈ l.missingFragments) (hcomplete : (fill l f).isComplete = true)
      (hnext : next = 0) (hlist : l' = fill l f)
  | next (hnew : l.fragments.contains f.fragmentIndex = false)
      (hmem : f.fragmentIndex ∈ l.missingFragments) (hcomplete : (fill l f).isComplete = false)
      (hmissing : (fill l f).missingFragments.isEmpty = false)
      (hpos : 0 < (fill l f).nextIndexToRetrieve random)
      (hnext : next = (fill l f).nextIndexToRetrieve random) (hlist : l' = fill l f)

theorem addFragment_eq_ok :
    l.addFragment f random = .ok (next, l') ↔ Fits l f ∧ Adds l f random next l' := by
  unfold BlockProposalFragmentList.addFragment
  constructor
  · intro h
    obtain ⟨hid, h₁⟩ := checkArgument_bind_eq_ok.mp h
    obtain ⟨⟨⟩, hpos, h₂⟩ := bind_eq_ok.mp h₁
    obtain ⟨htotal, h₃⟩ := checkArgument_bind_eq_ok.mp h₂
    obtain ⟨hsame, hrest⟩ := checks_bind_eq_ok.mp h₃
    refine ⟨⟨eq_of_beq hid, of_decide_eq_true (checkArgument_eq_ok.mp hpos),
      of_decide_eq_true htotal, fun hne => ?_⟩, ?_⟩
    · obtain ⟨hhash, hsize⟩ := hsame (not_isEmpty hne)
      exact ⟨eq_of_beq (checkArgument_eq_ok.mp hhash), eq_of_beq (checkArgument_eq_ok.mp hsize)⟩
    · dsimp only at hrest
      split_ifs at hrest with hhere hcomplete
      · cases hrest
        exact .here hhere rfl rfl
      · obtain ⟨⟨⟩, hmem, h₄⟩ := bind_eq_ok.mp hrest
        cases h₄
        exact .last (Bool.eq_false_iff.mpr hhere)
          (List.contains_iff_mem.mp (checkState_eq_ok.mp hmem)) hcomplete rfl rfl
      · obtain ⟨⟨⟩, hmem, h₄⟩ := bind_eq_ok.mp hrest
        obtain ⟨⟨⟩, hmissing, h₅⟩ := bind_eq_ok.mp h₄
        obtain ⟨⟨⟩, hnext, h₆⟩ := bind_eq_ok.mp h₅
        cases h₆
        exact .next (Bool.eq_false_iff.mpr hhere)
          (List.contains_iff_mem.mp (checkState_eq_ok.mp hmem)) (Bool.eq_false_iff.mpr hcomplete)
          ((Bool.not_eq_true' _).mp (checkState_eq_ok.mp hmissing))
          (of_decide_eq_true (checkState_eq_ok.mp hnext)) rfl rfl
  · rintro ⟨hf, hadds⟩
    refine checkArgument_bind_eq_ok.mpr ⟨beq_iff_eq.mpr hf.blockId, ?_⟩
    refine checkArgument_bind_eq_ok.mpr ⟨decide_eq_true hf.pos, ?_⟩
    refine checkArgument_bind_eq_ok.mpr ⟨decide_eq_true hf.total, ?_⟩
    refine checks_bind_eq_ok.mpr ⟨fun hnot => ?_, ?_⟩
    · obtain ⟨hhash, hsize⟩ := hf.same (by simpa using hnot)
      exact ⟨checkArgument_eq_ok.mpr (beq_iff_eq.mpr hhash),
        checkArgument_eq_ok.mpr (beq_iff_eq.mpr hsize)⟩
    · cases hadds with
      | here hhere hnext hlist =>
        rw [hnext, hlist]
        exact if_pos hhere
      | last hnew hmem hcomplete hnext hlist =>
        rw [hnext, hlist]
        exact (if_neg (Bool.eq_false_iff.mp hnew)).trans
          (checkState_bind_eq_ok.mpr ⟨List.contains_iff_mem.mpr hmem, if_pos hcomplete⟩)
      | next hnew hmem hcomplete hmissing hpos hnext hlist =>
        rw [hnext, hlist]
        refine (if_neg (Bool.eq_false_iff.mp hnew)).trans ?_
        refine checkState_bind_eq_ok.mpr ⟨List.contains_iff_mem.mpr hmem, ?_⟩
        refine (if_neg (Bool.eq_false_iff.mp hcomplete)).trans ?_
        refine checkState_bind_eq_ok.mpr ⟨congrArg not hmissing, ?_⟩
        exact checkState_bind_eq_ok.mpr ⟨decide_eq_true hpos, rfl⟩

theorem counted_fill (hl : l.Counted) (hhere : l.fragments.contains f.fragmentIndex = false)
    (hmem : f.fragmentIndex ∈ l.missingFragments) : (fill l f).Counted := by
  have hpos := List.length_pos_of_mem hmem
  unfold BlockProposalFragmentList.Counted fill at *
  rw [OrderedMap.size_emplace_of_not_contains hhere, List.length_erase_of_mem hmem]
  dsimp only [stamp]
  omega

theorem BlockProposalFragmentList.Counted.addFragment (hl : l.Counted)
    (h : l.addFragment f random = .ok (next, l')) : l'.Counted := by
  cases (addFragment_eq_ok.mp h).2 with
  | here _ _ hlist => exact hlist ▸ hl
  | last hnew hmem _ _ hlist | next hnew hmem _ _ _ _ hlist =>
    exact hlist ▸ counted_fill hl hnew hmem

theorem isComplete_of_addFragment (hl : l.Counted) (hcomplete : l.isComplete = true)
    (h : l.addFragment f random = .ok (next, l')) : l'.isComplete = true := by
  have hall : l.fragments.size = l.totalFragments := eq_of_beq hcomplete
  unfold BlockProposalFragmentList.Counted at hl
  cases (addFragment_eq_ok.mp h).2 with
  | here _ _ hlist => exact hlist ▸ hcomplete
  | last _ hmem _ _ _ | next _ hmem _ _ _ _ _ =>
    have hpos := List.length_pos_of_mem hmem
    omega

/-- Threads and fragments are as they were. -/
def SameFragments (s t : Reading) : Prop :=
  t.download.workers = s.download.workers ∧ t.download.fragmentList = s.download.fragmentList

theorem sameFragments_readHashAndSig (h sig : Bytes) :
    SameFragments s (finalState (readHashAndSig n blockId h sig) s) := by
  unfold SameFragments
  rw [download_readHashAndSig]
  split_ifs <;> exact ⟨rfl, rfl⟩

theorem fragmentIndex_of_make {totalFragments : ℕ} {f' : BlockProposalFragment}
    (h : BlockProposalFragment.make totalFragments f = .ok f') :
    f'.fragmentIndex = f.fragmentIndex := by
  have h₅ := after_check (after_check (after_check (after_check (after_check h))))
  split_ifs at h₅ <;> cases h₅
  rfl

/-- A program that reads a fragment fails and leaves threads and fragments alone, or adds the
fragment and gives the next. -/
def AddsFragment (fragmentIndex random : ℕ) (s : Reading) : EStateM.Result String Reading ℕ → Prop
  | .error _ t => SameFragments s t
  | .ok next t => t.download.workers = s.download.workers ∧
      ∃ f : BlockProposalFragment, f.fragmentIndex = fragmentIndex ∧
        s.download.fragmentList.addFragment f random = .ok (next, t.download.fragmentList)

theorem addsFragment_addData (fragmentIndex blockSize : ℕ) (data : Bytes) (random : ℕ) :
    AddsFragment fragmentIndex random s
      ((addData n blockId fragmentIndex blockSize data random).run s) := by
  unfold addData EStateM.run
  dsimp only
  cases hmake : BlockProposalFragment.make (n.cm.nodeCount - 1)
      ⟨blockId, fragmentIndex, data, blockSize, s.download.blockHash⟩ with
  | error e => exact ⟨rfl, rfl⟩
  | ok f =>
    dsimp only
    cases hadd : s.download.fragmentList.addFragment f random with
    | error e => exact ⟨rfl, rfl⟩
    | ok added => exact ⟨rfl, f, fragmentIndex_of_make hmake, hadd⟩

/-- A node that does not have the block ends the thread; any other response is a fragment. -/
theorem downloadFragment_run (lastTimeStampS fragmentIndex : ℕ) (js : Json) (data : Option Bytes)
    (random : ℕ) :
    (js.getUint64 "status" = .ok 4 ∧
        (downloadFragment n blockId lastTimeStampS fragmentIndex js data random).run s = .ok 0 s) ∨
      AddsFragment fragmentIndex random s
        ((downloadFragment n blockId lastTimeStampS fragmentIndex js data random).run s) := by
  unfold downloadFragment
  cases hstatus : js.getUint64 "status" with
  | error e => exact .inr ⟨rfl, rfl⟩
  | ok status =>
    dsimp only
    split_ifs with hnothing hproceed
    · exact .inl ⟨by rw [hnothing], rfl⟩
    · exact .inr ⟨rfl, rfl⟩
    · refine .inr ?_
      cases readResponse n lastTimeStampS js with
      | error e => exact ⟨rfl, rfl⟩
      | ok response =>
        obtain ⟨fragmentSize, blockSize, h, sig⟩ := response
        dsimp only
        rw [EStateM.run_bind]
        have hsame : SameFragments s (finalState (readHashAndSig n blockId h sig) s) :=
          sameFragments_readHashAndSig h sig
        cases hread : (readHashAndSig n blockId h sig).run s with
        | error e t =>
          rw [finalState_of_error hread] at hsame
          exact hsame
        | ok u t =>
          rw [finalState_of_ok hread] at hsame
          dsimp only
          cases data with
          | none => exact hsame
          | some bytes =>
            dsimp only
            split_ifs
            · exact hsame
            · have hadds : AddsFragment fragmentIndex random t
                  ((addData n blockId fragmentIndex blockSize bytes random).run t) :=
                addsFragment_addData fragmentIndex blockSize bytes random
              unfold AddsFragment SameFragments at hadds ⊢
              rw [← hsame.1, ← hsame.2]
              exact hadds

end Fragments

end SkaleConsensus.Finalize
