import SkaleConsensus.Finalize.Downloader

/-! Finalizing a decided block.

`finalizeDecidedAndSignedBlock` finds or downloads the proposal and verifies a DA
signature for it; `blockCommitArrived` then reads the proposal from the cache again and
commits it with that signature. In between the proposal server goes on, and what it
stores for the same proposer replaces what is in the cache. -/
namespace SkaleConsensus.Finalize
open Library Block Crypto Proposal

/-! ### The call -/

/-- Where the call is, with its local variables. -/
inductive Finalizer where
  | entered
  | lookingUp
  | found (proposal : BlockProposal)
  | downloading (d : Download)
  | downloaded (proposal : BlockProposal) (daSig : DASignature)
  | committing (daSig : Option DASignature)
  /-- The block was passed to `processCommittedBlock`. -/
  | committed
  | ended (outcome : Except String Unit)

structure FinalizeState where
  node : NodeState
  finalizer : Finalizer
  /-- Not in the code: the blocks this call passed to `processCommittedBlock`, and the DA
  signatures it attached to them. -/
  processed : List (CommittedBlock × Option DASignature)

/-- The DA signature in a block; a default block has none. -/
def daSigText (proposal : BlockProposal) : Option DASignature → Except String Bytes
  | some daSig => if 0 < proposal.proposerIndex then daSig.toText else pure []
  | none => pure []

/-- `CommittedBlock::makeFromProposal`. -/
def makeFromProposal (proposal : BlockProposal) (thresholdSig : Bytes)
    (daSig : Option DASignature) : Except String CommittedBlock := do
  checkArgument (daSig.isSome || proposal.proposerIndex == 0)
    "_daSig || _proposal->getProposerIndex() == 0"
  let text ← daSigText proposal daSig
  CommittedBlock.make proposal.toProposalFields thresholdSig text

section Call
variable (n : Node) (blockId : ℕ) (proposerIndex : SchainIndex) (thresholdSig : Bytes)

/-- The proposal that `blockCommitArrived` makes the block of. -/
def committedProposal (s : NodeState) : Except String BlockProposal :=
  if 0 < proposerIndex then
    match getBlockProposal n s blockId proposerIndex with
    | some proposal => pure proposal
    | none => throw "State check failed::committedProposal"
  else BlockProposal.createDefaultEmpty n.schainID s.lastCommittedBlockTimeStamp blockId

/-- `blockCommitArrived` up to `processCommittedBlock`, with the block that is passed on;
`none` if the block is committed already. -/
def blockCommitArrived (s : NodeState) (daSig : Option DASignature) :
    Except String (Option CommittedBlock) := do
  checkArgument (daSig.isSome || proposerIndex == 0) "_daSig || _proposerIndex == 0"
  checkState (!n.cm.isSyncNode) "!getNode()->isSyncOnlyNode()"
  if blockId ≤ s.lastCommittedBlockID then return none
  checkState (blockId == s.lastCommittedBlockID + 1 || s.lastCommittedBlockID == 0)
    "_committedBlockID == ( getLastCommittedBlockID() + 1 ) || getLastCommittedBlockID() == 0"
  let committedProposal ← committedProposal n blockId proposerIndex s
  let newCommittedBlock ← makeFromProposal committedProposal thresholdSig daSig
  checkState (s.lastCommittedBlockTimeStamp.lt newCommittedBlock.getTimeStamp)
    "getLastCommittedBlockTimeStamp() < newCommittedBlock->getTimeStamp()"
  return some newCommittedBlock

/-- `processCommittedBlock` up to `pushBlockToExtFace`. -/
def processCommittedBlock (block : CommittedBlock) (s : NodeState) : Except String NodeState := do
  checkState (s.lastCommittedBlockID + 1 == block.blockID)
    "getLastCommittedBlockID() + 1 == _block->getBlockID()"
  return startCommit block s

/-- The downloader is made and its threads started. -/
def toDownload : Finalizer :=
  match startDownload n blockId with
  | .ok d => .downloading d
  | .error e => .ended (.error e)

/-- The proposal and its DA proof were pushed while it was being downloaded. -/
def arrivedByPush (s : NodeState) : Bool :=
  match getBlockProposal n s blockId proposerIndex with
  | some proposal => (s.daProofDB ⟨proposal.blockID, proposal.proposerIndex⟩).isSome
  | none => false

/-- Steps of the call and of its worker threads, and what else the node does. -/
inductive FinalizeEvent where
  | node (e : NodeEvent)
  | enter
  | lookUp
  | check
  | poll (dstIndex : SchainIndex)
  /-- A node answers, or cannot be reached. -/
  | respond (dstIndex : SchainIndex) (response : Option (Json × Option Bytes)) (random : ℕ)
  | join
  | add
  | commit

/-- The head of the loop of a worker thread. -/
def pollStep (s : FinalizeState) (d : Download) (nextFragment : ℕ) : Worker :=
  if d.fragmentList.isComplete then .stopped
  else if !n.isFinalizationDownloadOnly &&
      (decide (blockId ≤ s.node.lastCommittedBlockID) ||
        arrivedByPush n blockId proposerIndex s.node) then .stopped
  else .requesting nextFragment

/-- The body of the loop; an exception is caught and the fragment asked for again. -/
def respondStep (s : FinalizeState) (d : Download) (dstIndex : SchainIndex) (nextFragment : ℕ)
    (response : Option (Json × Option Bytes)) (random : ℕ) : FinalizeState :=
  let download : EStateM String Reading ℕ :=
    match response with
    | none => throw "ConnectionRefusedException"
    | some (js, data) =>
      downloadFragment n blockId s.node.lastCommittedBlockTimeStamp.s nextFragment js data random
  let t := finalState download ⟨s.node.sessionPublicKeys, d⟩
  let worker : Worker :=
    match result? download ⟨s.node.sessionPublicKeys, d⟩ with
    | some 0 => .stopped
    | some next => .loop next
    | none => if t.download.fragmentList.isComplete then .stopped else .loop nextFragment
  {s with
    node := {s.node with sessionPublicKeys := t.sessionPublicKeys}
    finalizer := .downloading {t.download with
      workers := Function.update t.download.workers dstIndex worker}}

/-- What follows `downloadProposal`. -/
def joinStep (d : Download) : Finalizer :=
  match assembleProposal n proposerIndex d with
  | .error e => .ended (.error e)
  | .ok none => .ended (.ok ())
  | .ok (some proposal) =>
    match getDaSig n d proposal.timeStamp with
    | .error e => .ended (.error e)
    | .ok daSig => .downloaded proposal daSig

def enterStep (s : FinalizeState) : Finalizer :=
  if blockId ≤ s.node.lastCommittedBlockID then .ended (.ok ())
  else if proposerIndex = 0 then .committing none
  else .lookingUp

def lookUpStep (s : FinalizeState) : Finalizer :=
  match getBlockProposal n s.node blockId proposerIndex with
  | some proposal => .found proposal
  | none => toDownload n blockId

/-- The DA proof of the proposal that was found is verified for its hash. -/
def checkStep (s : FinalizeState) (proposal : BlockProposal) : FinalizeState :=
  let daProofSig := (s.node.daProofDB ⟨blockId, proposerIndex⟩).getD []
  if daProofSig.isEmpty then {s with finalizer := toDownload n blockId}
  else
    let hash := proposal.hash n.cm.blake3
    let verify :=
      verifyDAProofThresholdSig n.cm ⟨hash, daProofSig, blockId, proposal.timeStamp⟩
    match verify.run s.node.sessionPublicKeys with
    | .error e c =>
      {s with node := {s.node with sessionPublicKeys := c}, finalizer := .ended (.error e)}
    | .ok _ c =>
      {s with
        node := {s.node with sessionPublicKeys := c}
        finalizer :=
          if n.isFinalizationDownloadOnly then toDownload n blockId
          else .committing (some (.verified daProofSig hash))}

def addStep (s : FinalizeState) (proposal : BlockProposal) (daSig : DASignature) :
    FinalizeState :=
  match (addBlockProposal n proposal).run s.node with
  | .ok _ t => {s with node := t, finalizer := .committing (some daSig)}
  | .error e t => {s with node := t, finalizer := .ended (.error e)}

def commitStep (s : FinalizeState) (daSig : Option DASignature) : FinalizeState :=
  match blockCommitArrived n blockId proposerIndex thresholdSig s.node daSig with
  | .error e => {s with finalizer := .ended (.error e)}
  | .ok none => {s with finalizer := .ended (.ok ())}
  | .ok (some block) =>
    let passed := {s with processed := (block, daSig) :: s.processed}
    match processCommittedBlock block s.node with
    | .error e => {passed with finalizer := .ended (.error e)}
    | .ok t => {passed with node := t, finalizer := .committed}

/-- A restart ends the call with the node. -/
def finalizeStep : FinalizeEvent → FinalizeState → Option FinalizeState
  | .node .restart, _ => none
  | .node e, s => (nodeStep n e s.node).map fun t => {s with node := t}
  | .enter, s =>
    match s.finalizer with
    | .entered => some {s with finalizer := enterStep blockId proposerIndex s}
    | _ => none
  | .lookUp, s =>
    match s.finalizer with
    | .lookingUp => some {s with finalizer := lookUpStep n blockId proposerIndex s}
    | _ => none
  | .check, s =>
    match s.finalizer with
    | .found proposal => some (checkStep n blockId proposerIndex s proposal)
    | _ => none
  | .poll dstIndex, s =>
    match s.finalizer with
    | .downloading d =>
      match d.workers dstIndex with
      | .loop next =>
        let worker := pollStep n blockId proposerIndex s d next
        some {s with finalizer :=
          .downloading {d with workers := Function.update d.workers dstIndex worker}}
      | _ => none
    | _ => none
  | .respond dstIndex response random, s =>
    match s.finalizer with
    | .downloading d =>
      match d.workers dstIndex with
      | .requesting next => some (respondStep n blockId s d dstIndex next response random)
      | _ => none
    | _ => none
  | .join, s =>
    match s.finalizer with
    | .downloading d =>
      if ∀ dstIndex ∈ List.range' 1 n.cm.nodeCount, d.workers dstIndex = .stopped then
        some {s with finalizer := joinStep n proposerIndex d}
      else none
    | _ => none
  | .add, s =>
    match s.finalizer with
    | .downloaded proposal daSig => some (addStep n s proposal daSig)
    | _ => none
  | .commit, s =>
    match s.finalizer, s.node.holder with
    | .committing daSig, .nobody => some (commitStep n blockId proposerIndex thresholdSig s daSig)
    | _, _ => none

def finalizing (start : NodeState) : Machine FinalizeState FinalizeEvent where
  initial := ⟨start, .entered, []⟩
  step := finalizeStep n blockId proposerIndex thresholdSig

end Call

/-! ### What a step does -/

section Effect
variable {n : Node} {blockId : ℕ} {proposerIndex : SchainIndex} {thresholdSig : Bytes}
  {s s' : FinalizeState} {e : FinalizeEvent}

variable (n blockId proposerIndex thresholdSig s) in
inductive FinalizeEffect : FinalizeEvent → FinalizeState → Prop
  | node {e : NodeEvent} {t : NodeState} (halive : e ≠ .restart)
      (hstep : nodeStep n e s.node = some t) :
      FinalizeEffect (.node e) {s with node := t}
  | enter (hat : s.finalizer = .entered) :
      FinalizeEffect .enter {s with finalizer := enterStep blockId proposerIndex s}
  | lookUp (hat : s.finalizer = .lookingUp) :
      FinalizeEffect .lookUp {s with finalizer := lookUpStep n blockId proposerIndex s}
  | check {proposal : BlockProposal} (hat : s.finalizer = .found proposal) :
      FinalizeEffect .check (checkStep n blockId proposerIndex s proposal)
  | poll {dstIndex : SchainIndex} {d : Download} {nextFragment : ℕ}
      (hat : s.finalizer = .downloading d) (hworker : d.workers dstIndex = .loop nextFragment) :
      FinalizeEffect (.poll dstIndex)
        {s with finalizer := .downloading {d with
          workers := Function.update d.workers dstIndex
            (pollStep n blockId proposerIndex s d nextFragment)}}
  | respond {dstIndex : SchainIndex} {response : Option (Json × Option Bytes)} {random : ℕ}
      {d : Download} {nextFragment : ℕ} (hat : s.finalizer = .downloading d)
      (hworker : d.workers dstIndex = .requesting nextFragment) :
      FinalizeEffect (.respond dstIndex response random)
        (respondStep n blockId s d dstIndex nextFragment response random)
  | join {d : Download} (hat : s.finalizer = .downloading d)
      (hstopped : ∀ dstIndex ∈ List.range' 1 n.cm.nodeCount, d.workers dstIndex = .stopped) :
      FinalizeEffect .join {s with finalizer := joinStep n proposerIndex d}
  | add {proposal : BlockProposal} {daSig : DASignature}
      (hat : s.finalizer = .downloaded proposal daSig) :
      FinalizeEffect .add (addStep n s proposal daSig)
  | commit {daSig : Option DASignature} (hat : s.finalizer = .committing daSig)
      (hfree : s.node.holder = .nobody) :
      FinalizeEffect .commit (commitStep n blockId proposerIndex thresholdSig s daSig)

theorem effect_of_finalizeStep
    (h : finalizeStep n blockId proposerIndex thresholdSig e s = some s') :
    FinalizeEffect n blockId proposerIndex thresholdSig s e s' := by
  cases e with
  | node e =>
    have hstep : e ≠ .restart ∧
        (nodeStep n e s.node).map (fun t => {s with node := t}) = some s' := by
      cases e with
      | restart => cases h
      | _ => exact ⟨nofun, h⟩
    obtain ⟨t, ht, rfl⟩ := Option.map_eq_some_iff.mp hstep.2
    exact .node hstep.1 ht
  | enter =>
    dsimp only [finalizeStep] at h
    split at h
    next hat =>
      cases h
      exact .enter hat
    next => cases h
  | lookUp =>
    dsimp only [finalizeStep] at h
    split at h
    next hat =>
      cases h
      exact .lookUp hat
    next => cases h
  | check =>
    dsimp only [finalizeStep] at h
    split at h
    next hat =>
      cases h
      exact .check hat
    next => cases h
  | poll dstIndex =>
    dsimp only [finalizeStep] at h
    split at h
    next d hat =>
      split at h
      next hworker =>
        cases h
        exact .poll hat hworker
      next => cases h
    next => cases h
  | respond dstIndex response random =>
    dsimp only [finalizeStep] at h
    split at h
    next d hat =>
      split at h
      next hworker =>
        cases h
        exact .respond hat hworker
      next => cases h
    next => cases h
  | join =>
    dsimp only [finalizeStep] at h
    split at h
    next d hat =>
      split_ifs at h with hstopped
      cases h
      exact .join hat hstopped
    next => cases h
  | add =>
    dsimp only [finalizeStep] at h
    split at h
    next hat =>
      cases h
      exact .add hat
    next => cases h
  | commit =>
    dsimp only [finalizeStep] at h
    split at h
    next hat hfree =>
      cases h
      exact .commit hat hfree
    next => cases h

end Effect

/-! ### What the call commits -/

section Condition
variable (n : Node) (blockId : ℕ) (proposerIndex : SchainIndex)

/-- The hash that the DA signature at hand is for. -/
def pinned : Finalizer → Option Hash
  | .found proposal => some (proposal.hash n.cm.blake3)
  | .committing (some (.verified _ hash)) => some hash
  | _ => none

/-- The proposal that an event has the proposal server pass to `proposedBlockArrived`. -/
def arriving : FinalizeEvent → Option BlockProposal
  | .node (.finish h transactions) =>
    match receivedBlockProposal n h transactions with
    | .error _ => none
    | .ok proposal =>
      if (proposal.verifyProposalECDSA n.cm h.hash h.signature).isOk then some proposal else none
  | _ => none

/-- The proposal that an event has the call store. -/
def adding : FinalizeEvent → Finalizer → Option BlockProposal
  | .add, .downloaded proposal _ => some proposal
  | _, _ => none

/-- No other proposal for the block arrives once there is a DA signature, and a proposal
that was downloaded for an earlier block does not leave another one in the cache. -/
def Undisturbed (e : FinalizeEvent) (s : FinalizeState) : Prop :=
  (∀ q ∈ arriving n e, q.blockID = blockId → q.proposerIndex = proposerIndex →
    ∀ hash ∈ pinned n s.finalizer, q.hash n.cm.blake3 = hash) ∧
  ∀ q ∈ adding e s.finalizer, q.blockID < blockId →
    ∀ p ∈ getBlockProposal n s.node blockId proposerIndex,
      p.hash n.cm.blake3 = q.hash n.cm.blake3

instance (e : FinalizeEvent) (s : FinalizeState) :
    Decidable (Undisturbed n blockId proposerIndex e s) :=
  inferInstanceAs (Decidable (_ ∧ _))

/-- What is read for the block has this hash. -/
def HashIs (s : NodeState) (hash : Hash) : Prop :=
  ∀ q ∈ getBlockProposal n s blockId proposerIndex, q.hash n.cm.blake3 = hash

/-- What holds of the local variables of the call. -/
def Verified (node : NodeState) : Finalizer → Prop
  | .lookingUp => 0 < proposerIndex
  | .found proposal =>
    0 < proposerIndex ∧ HashIs n blockId proposerIndex node (proposal.hash n.cm.blake3)
  | .downloading d => 0 < proposerIndex ∧ Matched d
  | .downloaded proposal daSig =>
    0 < proposerIndex ∧ proposal.proposerIndex = proposerIndex ∧
      ∀ text hash, daSig = .verified text hash → proposal.hash n.cm.blake3 = hash
  | .committing daSig =>
    ∀ sig ∈ daSig, 0 < proposerIndex ∧
      ∀ text hash, sig = .verified text hash → HashIs n blockId proposerIndex node hash
  | .entered | .committed | .ended _ => True

structure Sound (s : FinalizeState) : Prop where
  own : AtOwn n s.node
  verified : Verified n blockId proposerIndex s.node s.finalizer
  processed : ∀ block daSig, (block, some daSig) ∈ s.processed →
    daSig = .verified block.daSig (block.hash n.cm.blake3)

end Condition

section Safety
variable {n : Node} {blockId : ℕ} {proposerIndex : SchainIndex} {thresholdSig : Bytes}
  {s s' : FinalizeState} {node node' : NodeState} {e : NodeEvent} {hash : Hash}
  {daSig : DASignature} {proposal : BlockProposal} {block : CommittedBlock}

theorem mem_arriving {h : BlockProposalRequestHeader} {transactions : List Transaction}
    {q : BlockProposal} (hreceived : receivedBlockProposal n h transactions = .ok q)
    (hverify : q.verifyProposalECDSA n.cm h.hash h.signature = .ok ()) :
    q ∈ arriving n (.node (.finish h transactions)) := by
  dsimp only [arriving]
  rw [hreceived]
  dsimp only
  rw [hverify]
  rfl

/-- Whatever the node does, the call reads the proposal it read before or one that has
arrived. -/
theorem HashIs.effect (hp : proposerIndex ≠ n.me) (hown : AtOwn n node) (he : Effect n node e node')
    (h : HashIs n blockId proposerIndex node hash)
    (harriving : ∀ q ∈ arriving n (.node e), q.blockID = blockId →
      q.proposerIndex = proposerIndex → q.hash n.cm.blake3 = hash) :
    HashIs n blockId proposerIndex node' hash := by
  intro q hq
  rcases of_getBlockProposal hq with ⟨hslot, hblock⟩ | ⟨hme, -⟩
  · rcases slot_of_effect hown he hp hslot with
      hbefore | ⟨hd, transactions, rfl, hreceived, hverify⟩
    · refine h q ?_
      rw [← hblock]
      exact getBlockProposal_of_slot hbefore
    · exact harriving q (mem_arriving hreceived hverify) hblock
        (node'.proposalCaches.index_eq proposerIndex q hslot)
  · exact absurd hme.symm hp

theorem Verified.effect (hp : proposerIndex ≠ n.me) (hown : AtOwn n node)
    (he : Effect n node e node') {f : Finalizer} (h : Verified n blockId proposerIndex node f)
    (harriving : ∀ q ∈ arriving n (.node e), q.blockID = blockId →
      q.proposerIndex = proposerIndex → ∀ hash ∈ pinned n f, q.hash n.cm.blake3 = hash) :
    Verified n blockId proposerIndex node' f := by
  cases f with
  | entered | lookingUp | downloading | downloaded | committed | ended => exact h
  | found proposal =>
    exact ⟨h.1, h.2.effect hp hown he fun q hq hblock hindex => harriving q hq hblock hindex _ rfl⟩
  | committing daSig =>
    intro sig hsig
    refine ⟨(h sig hsig).1, fun text hash hverified => ?_⟩
    refine ((h sig hsig).2 text hash hverified).effect hp hown he fun q hq hblock hindex => ?_
    subst hverified
    cases hsig
    exact harriving q hq hblock hindex hash rfl

theorem verified_toDownload (h : 0 < proposerIndex) :
    Verified n blockId proposerIndex node (toDownload n blockId) := by
  unfold toDownload
  cases hstart : startDownload n blockId with
  | error e => trivial
  | ok d => exact ⟨h, matched_startDownload hstart⟩

theorem verified_enterStep :
    Verified n blockId proposerIndex s.node (enterStep blockId proposerIndex s) := by
  unfold enterStep
  split_ifs with hold hdefault
  · trivial
  · exact nofun
  · exact Nat.pos_of_ne_zero hdefault

theorem verified_lookUpStep (h : 0 < proposerIndex) :
    Verified n blockId proposerIndex s.node (lookUpStep n blockId proposerIndex s) := by
  unfold lookUpStep
  cases hget : getBlockProposal n s.node blockId proposerIndex with
  | none => exact verified_toDownload h
  | some proposal =>
    refine ⟨h, fun q hq => ?_⟩
    rw [Option.some.inj (hget.symm.trans hq)]

theorem Sound.checkStep (hs : Sound n blockId proposerIndex s)
    (hfound : s.finalizer = .found proposal) :
    Sound n blockId proposerIndex (checkStep n blockId proposerIndex s proposal) := by
  have hverified := hs.verified
  rw [hfound] at hverified
  unfold Finalize.checkStep
  dsimp only
  split_ifs with hempty honly
  · exact ⟨hs.own, verified_toDownload hverified.1, hs.processed⟩
  · split
    · exact ⟨hs.own, trivial, hs.processed⟩
    · exact ⟨hs.own, verified_toDownload hverified.1, hs.processed⟩
  · split
    · exact ⟨hs.own, trivial, hs.processed⟩
    · refine ⟨hs.own, fun sig hsig => ⟨hverified.1, fun text hash htext => ?_⟩, hs.processed⟩
      cases hsig
      cases htext
      exact hverified.2

theorem Sound.respondStep {d : Download} {dstIndex : SchainIndex} {nextFragment random : ℕ}
    {response : Option (Json × Option Bytes)} (hs : Sound n blockId proposerIndex s)
    (hdownloading : s.finalizer = .downloading d) :
    Sound n blockId proposerIndex
      (respondStep n blockId s d dstIndex nextFragment response random) := by
  have hverified := hs.verified
  rw [hdownloading] at hverified
  refine ⟨hs.own, ⟨hverified.1, ?_⟩, hs.processed⟩
  cases response with
  | none => exact hverified.2
  | some response =>
    exact matched_downloadFragment (s := ⟨s.node.sessionPublicKeys, d⟩) _ _ _ _ _ hverified.2

theorem verified_joinStep {d : Download} (h : 0 < proposerIndex) (hd : Matched d) :
    Verified n blockId proposerIndex node (joinStep n proposerIndex d) := by
  unfold joinStep
  cases hassemble : assembleProposal n proposerIndex d with
  | error e => trivial
  | ok assembled =>
    cases assembled with
    | none => trivial
    | some proposal =>
      dsimp only
      cases hsig : getDaSig n d proposal.timeStamp with
      | error e => trivial
      | ok daSig =>
        refine ⟨h, (assembled_of_assembleProposal hassemble).proposerIndex,
          fun text hash htext => ?_⟩
        rw [htext] at hsig
        exact hash_of_assembleProposal hd hassemble (daSig_of_getDaSig hsig)

/-- What is stored takes the place of what was there, unless it is for an earlier block. -/
theorem hashIs_stored (hp : proposerIndex ≠ n.me) (hindex : proposal.proposerIndex = proposerIndex)
    (hearlier : proposal.blockID < blockId →
      HashIs n blockId proposerIndex node (proposal.hash n.cm.blake3)) :
    HashIs n blockId proposerIndex (stored n proposal node) (proposal.hash n.cm.blake3) := by
  intro q hq
  rcases of_getBlockProposal hq with ⟨hslot, hblock⟩ | ⟨hme, -⟩
  · subst hindex
    rcases ProposalCaches.slot_add_self node.proposalCaches proposal with
      hadd | ⟨previous, hprevious, hlater, hadd⟩
    · rw [Option.some.inj (hadd.symm.trans hslot)]
    · obtain rfl := Option.some.inj (hadd.symm.trans hslot)
      subst hblock
      exact hearlier hlater previous (getBlockProposal_of_slot hprevious)
  · exact absurd hme.symm hp

theorem Sound.addStep (hs : Sound n blockId proposerIndex s) (hp : proposerIndex ≠ n.me)
    (hdownloaded : s.finalizer = .downloaded proposal daSig)
    (hearlier : proposal.blockID < blockId →
      HashIs n blockId proposerIndex s.node (proposal.hash n.cm.blake3)) :
    Sound n blockId proposerIndex (addStep n s proposal daSig) := by
  have hverified := hs.verified
  rw [hdownloaded] at hverified
  obtain ⟨hpos, hindex, hhash⟩ := hverified
  unfold Finalize.addStep
  rcases addBlockProposal_run (n := n) (s := s.node) proposal with hrun | ⟨e, hrun⟩
  · rw [hrun]
    refine ⟨hs.own, fun sig hsig => ⟨hpos, fun text hash htext => ?_⟩, hs.processed⟩
    cases hsig
    rw [← hhash text hash htext]
    exact hashIs_stored hp hindex hearlier
  · rw [hrun]
    exact ⟨hs.own, trivial, hs.processed⟩

theorem of_makeFromProposal (hpos : 0 < proposal.proposerIndex)
    (h : makeFromProposal proposal thresholdSig (some daSig) = .ok block) :
    block.toProposalFields = proposal.toProposalFields ∧ daSig.toText = .ok block.daSig := by
  have h₁ := after_check h
  obtain ⟨text, htext, h₂⟩ := bind_eq_ok.mp h₁
  dsimp only [daSigText] at htext
  rw [if_pos hpos] at htext
  obtain ⟨hmake, -, hdaSig⟩ := CommittedBlock.of_make_eq_ok h₂
  rw [BlockProposal.of_make_eq_ok hmake, proposal.rooted_eq, hdaSig]
  exact ⟨rfl, htext⟩

theorem made_of_blockCommitArrived {daSig : Option DASignature}
    (h : blockCommitArrived n blockId proposerIndex thresholdSig node daSig = .ok (some block)) :
    ∃ proposal, committedProposal n blockId proposerIndex node = .ok proposal ∧
      makeFromProposal proposal thresholdSig daSig = .ok block ∧
      ¬ blockId ≤ node.lastCommittedBlockID ∧
      (blockId == node.lastCommittedBlockID + 1 || node.lastCommittedBlockID == 0) = true ∧
      node.lastCommittedBlockTimeStamp.lt block.getTimeStamp = true := by
  have h₂ := after_check (after_check h)
  split_ifs at h₂ with hnew
  · cases h₂
  · obtain ⟨hnext, h₃⟩ := checkState_bind_eq_ok.mp h₂
    obtain ⟨proposal, hproposal, h₄⟩ := bind_eq_ok.mp h₃
    obtain ⟨made, hmade, h₅⟩ := bind_eq_ok.mp h₄
    obtain ⟨hstamp, h₆⟩ := checkState_bind_eq_ok.mp h₅
    cases h₆
    exact ⟨proposal, hproposal, hmade, hnew, hnext, hstamp⟩

theorem committed_of_blockCommitArrived {daSig : Option DASignature}
    (h : blockCommitArrived n blockId proposerIndex thresholdSig node daSig = .ok none) :
    blockId ≤ node.lastCommittedBlockID := by
  have h₂ := after_check (after_check h)
  split_ifs at h₂ with hold
  · exact hold
  · have h₃ := after_check h₂
    obtain ⟨proposal, h₄⟩ := after_bind h₃
    obtain ⟨made, h₅⟩ := after_bind h₄
    have h₆ := after_check h₅
    cases h₆

theorem of_blockCommitArrived (hpos : 0 < proposerIndex)
    (h : blockCommitArrived n blockId proposerIndex thresholdSig node (some daSig) = .ok (some
      block)) :
    ∃ proposal, getBlockProposal n node blockId proposerIndex = some proposal ∧
      makeFromProposal proposal thresholdSig (some daSig) = .ok block := by
  obtain ⟨proposal, hproposal, hmade, -⟩ := made_of_blockCommitArrived h
  unfold committedProposal at hproposal
  rw [if_pos hpos] at hproposal
  cases hget : getBlockProposal n node blockId proposerIndex with
  | none =>
    rw [hget] at hproposal
    cases hproposal
  | some q =>
    rw [hget] at hproposal
    cases hproposal
    exact ⟨proposal, rfl, hmade⟩

theorem eq_verified_of_toText {text : Bytes} (h : daSig.toText = .ok text) :
    ∃ hash, daSig = .verified text hash := by
  cases daSig with
  | verified text' hash =>
    cases h
    exact ⟨hash, rfl⟩
  | trivial => cases h

theorem daSig_of_blockCommitArrived (hpos : 0 < proposerIndex)
    (hhash : ∀ text hash, daSig = .verified text hash → HashIs n blockId proposerIndex node hash)
    (hproposer : ∀ q ∈ getBlockProposal n node blockId proposerIndex, q.proposerIndex =
      proposerIndex)
    (h : blockCommitArrived n blockId proposerIndex thresholdSig node (some daSig) = .ok (some
      block)) :
    daSig = .verified block.daSig (block.hash n.cm.blake3) := by
  obtain ⟨proposal, hget, hmake⟩ := of_blockCommitArrived hpos h
  obtain ⟨hfields, htext⟩ := of_makeFromProposal (hproposer proposal hget ▸ hpos) hmake
  obtain ⟨hash, hverified⟩ := eq_verified_of_toText htext
  rw [hverified, hfields, hhash _ hash hverified proposal hget]

theorem Sound.commitStep {daSig : Option DASignature} (hs : Sound n blockId proposerIndex s)
    (hp : proposerIndex ≠ n.me) (hcommitting : s.finalizer = .committing daSig) :
    Sound n blockId proposerIndex (commitStep n blockId proposerIndex thresholdSig s daSig) := by
  have hverified := hs.verified
  rw [hcommitting] at hverified
  unfold Finalize.commitStep
  cases harrived : blockCommitArrived n blockId proposerIndex thresholdSig s.node daSig with
  | error e => exact ⟨hs.own, trivial, hs.processed⟩
  | ok arrived =>
    cases arrived with
    | none => exact ⟨hs.own, trivial, hs.processed⟩
    | some block =>
      have hprocessed : ∀ block' daSig', (block', some daSig') ∈ (block, daSig) :: s.processed →
          daSig' = .verified block'.daSig (block'.hash n.cm.blake3) := by
        intro block' daSig' hmem
        rcases List.mem_cons.mp hmem with heq | hmem
        · cases heq
          obtain ⟨hpos, hhash⟩ := hverified daSig' rfl
          refine daSig_of_blockCommitArrived hpos hhash (fun q hq => ?_) harrived
          rcases of_getBlockProposal hq with ⟨hslot, -⟩ | ⟨hme, -⟩
          · exact s.node.proposalCaches.index_eq proposerIndex q hslot
          · exact absurd hme.symm hp
        · exact hs.processed block' daSig' hmem
      dsimp only
      cases hprocess : processCommittedBlock block s.node with
      | error e => exact ⟨hs.own, trivial, hprocessed⟩
      | ok t =>
        have hreturn := after_check hprocess
        cases hreturn
        exact ⟨nofun, trivial, hprocessed⟩

theorem Sound.step {e : FinalizeEvent} (hp : proposerIndex ≠ n.me)
    (hs : Sound n blockId proposerIndex s) (hquiet : Undisturbed n blockId proposerIndex e s)
    (h : finalizeStep n blockId proposerIndex thresholdSig e s = some s') :
    Sound n blockId proposerIndex s' := by
  have hverified := hs.verified
  cases effect_of_finalizeStep h with
  | node _ hstep =>
    have he := effect_of_nodeStep hstep
    exact ⟨hs.own.effect he, hverified.effect hp hs.own he hquiet.1, hs.processed⟩
  | enter => exact ⟨hs.own, verified_enterStep, hs.processed⟩
  | lookUp hat =>
    rw [hat] at hverified
    exact ⟨hs.own, verified_lookUpStep hverified, hs.processed⟩
  | check hat => exact hs.checkStep hat
  | poll hat =>
    rw [hat] at hverified
    exact ⟨hs.own, hverified, hs.processed⟩
  | respond hat => exact hs.respondStep hat
  | join hat =>
    rw [hat] at hverified
    exact ⟨hs.own, verified_joinStep hverified.1 hverified.2, hs.processed⟩
  | @add proposal _ hat =>
    refine hs.addStep hp hat fun hearlier => hquiet.2 proposal ?_ hearlier
    rw [hat]
    rfl
  | commit hat => exact hs.commitStep hp hat

/-- In every interleaving in which the proposal is not exchanged under the call, the block
that is passed to `processCommittedBlock` has the hash for which its DA signature was
verified. -/
theorem daSig_eq_verified_of_undisturbed {start : NodeState} (hstart : (running n).Reachable start)
    (hp : proposerIndex ≠ n.me) {events : List FinalizeEvent}
    (hrun : (finalizing n blockId proposerIndex thresholdSig start).run events = some s)
    (hquiet : (finalizing n blockId proposerIndex thresholdSig start).Keeps
      (Undisturbed n blockId proposerIndex)
      (finalizing n blockId proposerIndex thresholdSig start).initial events)
    {block : CommittedBlock} {daSig : DASignature} (h : (block, some daSig) ∈ s.processed) :
    daSig = .verified block.daSig (block.hash n.cm.blake3) := by
  have hsound : Sound n blockId proposerIndex s := by
    refine Machine.run_invariant_of_keeps hrun hquiet ⟨atOwn_of_reachable hstart, trivial, nofun⟩ ?_
    exact fun e s s' hs hc hstep => hs.step hp hc hstep
  exact hsound.processed block daSig h

end Safety

/-! ### A proposal exchanged -/

/-- A digest of 32 bytes: the sum. -/
def byteSum (text : Bytes) : Hash := leBytes 32 (text.foldl (fun sum b => sum + b.toNat) 0)

/-- Node 2's proposals for block 1 differ in their time stamps. -/
def offeredHash (ms : ℕ) : Hash :=
  ProposalFields.hash ⟨1, 12, 1, 2, [], 0, MODERN_TIME + 1, ms, []⟩ byteSum

def offer (ms : ℕ) : BlockProposalRequestHeader where
  schainID := 1
  blockID := 1
  proposerIndex := 2
  proposerNodeID := 12
  timeStamp := MODERN_TIME + 1
  timeStampMs := ms
  hash := toHex (offeredHash ms)
  signature := letter 12 ++ offeredHash ms
  txCount := 0
  stateRoot := 0

/-- The session keys of the nodes, and what they certify. -/
def keyOf (nodeId : NodeID) : Bytes := textBytes "k" ++ letter nodeId

def keyHash (nodeId : NodeID) : Hash := byteSum (leBytes 8 1 ++ keyOf nodeId)

/-- The nodes 2 to 4 have signed for the proposal with time stamp 1. -/
def daProof : Bytes :=
  List.intercalate (textBytes "*") (([2, 3, 4] : List ℕ).map fun i =>
    List.intercalate (textBytes ";") [textBytes (toString i), keyOf (10 + i) ++ offeredHash 1,
      keyOf (10 + i), letter (10 + i) ++ keyHash (10 + i)])

def offeredHeader : Json :=
  .object [("proposerIndex", .number 2), ("proposerNodeID", .number 12), ("blockID", .number 1),
    ("schainID", .number 1), ("timeStamp", .number (.ofNat (MODERN_TIME + 1))),
    ("timeStampMs", .number 1), ("hash", .string (toHex (offeredHash 1))),
    ("sig", .string (letter 12 ++ offeredHash 1)), ("sr", .string (textBytes "0")),
    ("sizes", .array [])]

/-- A text that stands for `offeredHeader`. -/
def headerText : Bytes := [123, 49, 125]

def nodeOne : Node :=
  {Node.ofFour with
    cm := {fourSigners
        ([(letter 12, offeredHash 0), (letter 12, offeredHash 1)] ++
          [12, 13, 14].map fun x => (letter x, keyHash x))
        ([12, 13, 14].map fun x => (keyOf x, offeredHash 1)) with
      blake3 := byteSum}
    json := fun text => if text = headerText then some offeredHeader else none
    verifyDaSigsPatchTimestampS := 1}

/-- The fragments of the proposal with time stamp 1. -/
def fragment (i : ℕ) : Bytes :=
  [60] ++ ((leBytes 8 3 ++ headerText ++ [60, 62]).drop (5 * (i - 1))).take 5 ++ [62]

def response (i : ℕ) : Json :=
  .object [("status", .number 1), ("fragmentSize", .number (.ofNat (fragment i).length)),
    ("blockSize", .number 13), ("blockHash", .string (toHex (offeredHash 1))),
    ("daSig", .string daProof)]

/-- Node 1 makes its own proposal and is offered one by node 2, whose transactions are
still to come when the other one is decided and downloaded. -/
def untilDownloaded : List FinalizeEvent :=
  [.node (.build ⟨[], 0, ⟨MODERN_TIME + 1, 0⟩, [1]⟩), .node .store, .node .save, .node .sign,
    .node (.request (offer 0).addFields (MODERN_TIME + 1)), .enter, .lookUp,
    .poll 2, .poll 3, .poll 4] ++
  ([2, 3, 4] : List ℕ).map (fun i =>
    .respond i (some (response (i - 1), some (fragment (i - 1)))) 0) ++
  [.poll 2, .poll 3, .join, .add]

/-- The block is committed before the transactions come. -/
theorem daSig_eq_verified_untilDownloaded :
    ∃ s, (finalizing nodeOne 1 2 [1] .genesis).run
        (untilDownloaded ++ [.commit, .node (.finish (offer 0) [])]) = some s ∧
      ∃ block daSig, (block, some daSig) ∈ s.processed ∧
        daSig = .verified block.daSig (block.hash nodeOne.cm.blake3) := by
  obtain ⟨s, hrun, committed, hmem, hsome⟩ :
      ∃ s, (finalizing nodeOne 1 2 [1] .genesis).run
          (untilDownloaded ++ [.commit, .node (.finish (offer 0) [])]) = some s ∧
        ∃ committed ∈ s.processed, committed.2.isSome :=
    Machine.exists_run (by decide +kernel)
  obtain ⟨block, daSig⟩ := committed
  obtain ⟨daSig, rfl⟩ := Option.isSome_iff_exists.mp hsome
  refine ⟨s, hrun, block, daSig, hmem, ?_⟩
  exact daSig_eq_verified_of_undisturbed ⟨[], rfl⟩ (by decide) hrun (by decide +kernel) hmem

/-- The transactions come first: the proposal that was offered takes the place of the one
that was downloaded, and is committed with the DA signature for that one. -/
theorem daSig_ne_verified_of_late_finish :
    (running nodeOne).Reachable .genesis ∧ 2 ≠ nodeOne.me ∧
      ∃ s, (finalizing nodeOne 1 2 [1] .genesis).run
          (untilDownloaded ++ [.node (.finish (offer 0) []), .commit]) = some s ∧
        ∃ committed ∈ s.processed,
          committed.2 = some (.verified daProof (offeredHash 1)) ∧
          committed.1.daSig = daProof ∧
          committed.1.hash nodeOne.cm.blake3 = offeredHash 0 ∧ offeredHash 0 ≠ offeredHash 1 :=
  ⟨⟨[], rfl⟩, by decide, Machine.exists_run (by decide +kernel)⟩

end SkaleConsensus.Finalize
