import SkaleConsensus.Proposal.Store

/-! The proposal server of a node, and the node's own proposals.

A request is served in two parts with the network in between: the header is answered,
and its hash saved, before the transactions arrive and the signature is checked. The
node signs a DA share for a proposal that passed, then stores it. Its own proposal goes
through the same stores in `proposeNextBlock`, which runs with `blockProcessMutex` held,
step by step next to the server. -/
namespace SkaleConsensus.Proposal
open Library Block Crypto

inductive ConnectionStatus where
  | error
  | disconnect
  | retryLater
  | proceed
  | success
deriving DecidableEq, Repr

inductive ConnectionSubStatus where
  | ok
  | unknownSchainID
  | dontKnowThisNode
  | invalidNodeIndex
  | blockProposalTooLate
  | blockProposalInTheFuture
  | alreadyHaveEnoughProposals
  | proposalStateRootDoesNotMatch
  | timeLessThanModernDay
  | timeTooFarInTheFuture
  | timeStampInTheFuture
  | timeStampEarlierThanCommitted
  | doubleProposal
  | signatureDidNotVerify
  | invalidHash
  | dontHaveProposalForThisDAProof
  | alreadyHaveDAProof
deriving DecidableEq, Repr

abbrev Response := ConnectionStatus × ConnectionSubStatus

section Server
variable (n : Node)

/-! ### Proposals of others -/

/-- The constructor of `BlockProposalRequestHeader`. -/
def blockProposalRequestHeader (js : Json) : Except String BlockProposalRequestHeader := do
  let schainID ← js.getUint64 "schainID"
  let blockID ← js.getUint64 "blockID"
  let proposerIndex ← js.getUint64 "proposerIndex"
  checkArgument (decide (proposerIndex ≤ n.cm.nodeCount))
    "( uint64_t ) proposerIndex <= ( uint64_t ) _nodeCount"
  checkArgument (decide (0 < proposerIndex)) "proposerIndex > 0"
  let proposerNodeID ← js.getUint64 "proposerNodeID"
  let timeStamp ← js.getUint64 "timeStamp"
  let timeStampMs ← js.getUint32 "timeStampMs"
  let hash ← js.getString "hash"
  checkState (!hash.isEmpty) "!hash.empty()"
  let signature ← js.getString "sig"
  checkState (!signature.isEmpty) "!signature.empty()"
  let txCount ← js.getUint64 "txCount"
  let stateRootStr ← js.getString "sr"
  checkState (!stateRootStr.isEmpty) "!stateRootStr.empty()"
  match n.u256 stateRootStr with
  | none => throw "u256"
  | some stateRoot =>
    return {
      schainID, blockID, proposerIndex, proposerNodeID, timeStamp, timeStampMs, hash, signature,
      txCount, stateRoot }

/-- `BlockProposalRequestHeader::addFields`, as the proposer sends it. -/
def BlockProposalRequestHeader.addFields (h : BlockProposalRequestHeader) : Json :=
  .object [("schainID", .number (.ofNat h.schainID)),
    ("proposerNodeID", .number (.ofNat h.proposerNodeID)),
    ("proposerIndex", .number (.ofNat h.proposerIndex)),
    ("blockID", .number (.ofNat h.blockID)), ("txCount", .number (.ofNat h.txCount)),
    ("timeStamp", .number (.ofNat h.timeStamp)), ("timeStampMs", .number (.ofNat h.timeStampMs)),
    ("hash", .string h.hash), ("sig", .string h.signature),
    ("sr", .string (textBytes (toString h.stateRoot.toNat)))]

/-- The checks of `createProposalResponseHeader` before the one for double proposals. `now` is what
`Time::getCurrentTimeSec` returns; that it throws if the clock is past
`MODERN_TIME + 1000000000` is left out. -/
def refuseProposal (s : NodeState) (h : BlockProposalRequestHeader) (now : ℕ) : Option Response :=
  if n.schainID ≠ h.schainID then some (.error, .unknownSchainID)
  else match n.nodeInfosById h.proposerNodeID with
  | none => some (.error, .dontKnowThisNode)
  | some nmi =>
    if nmi.schainIndex ≠ h.proposerIndex then some (.error, .invalidNodeIndex)
    else if h.blockID ≤ s.lastCommittedBlockID then some (.disconnect, .blockProposalTooLate)
    else if s.lastCommittedBlockID + 1 < h.blockID ∨ getBlockProposal n s h.blockID n.me = none then
      some (.retryLater, .blockProposalInTheFuture)
    else if isEnoughProofs n s h.blockID then some (.disconnect, .alreadyHaveEnoughProposals)
    else match getBlockProposal n s h.blockID n.me with
    | none => some (.retryLater, .blockProposalInTheFuture)
    | some myBlockProposal =>
      if 1 < h.blockID ∧ h.stateRoot ≠ myBlockProposal.stateRoot then
        some (.error, .proposalStateRootDoesNotMatch)
      else if h.timeStamp ≤ MODERN_TIME then some (.error, .timeLessThanModernDay)
      else if MODERN_TIME * 2 < now then some (.error, .timeTooFarInTheFuture)
      else if now + 1 < h.timeStamp then some (.error, .timeStampInTheFuture)
      else if !s.lastCommittedBlockTimeStamp.lt ⟨h.timeStamp, h.timeStampMs⟩ then
        some (.disconnect, .timeStampEarlierThanCommitted)
      else none

def createProposalResponseHeader (h : BlockProposalRequestHeader) (now : ℕ) :
    EStateM String NodeState Response := do
  let s ← get
  match refuseProposal n s h now with
  | some response => return response
  | none =>
    if ← checkAndSaveHash h.key h.hash then return (.proceed, .ok)
    else return (.disconnect, .doubleProposal)

/-- `processProposalRequest` up to the answer to the header. -/
def openRequest (js : Json) (now : ℕ) : EStateM String NodeState Response :=
  match blockProposalRequestHeader n js with
  | .error _ => throw "Couldnt create proposal response header"
  | .ok h => do
    let response ← (createProposalResponseHeader n h now).adaptExcept
      fun _ => "Couldnt create proposal response header"
    if response.1 = .proceed then modify fun s => {s with requests := h :: s.requests}
    return response

/-- The constructor of `ReceivedBlockProposal`. -/
def receivedBlockProposal (h : BlockProposalRequestHeader) (transactions : List Transaction) :
    Except String BlockProposal := do
  let proposerNodeID ← getNodeIDByIndex n.cm h.proposerIndex
  BlockProposal.make {
    schainID := n.schainID, proposerNodeID, blockID := h.blockID,
    proposerIndex := h.proposerIndex, transactionList := transactions,
    stateRoot := h.stateRoot, timeStamp := h.timeStamp, timeStampMs := h.timeStampMs,
    signature := h.signature }

/-- `processProposalRequest` from where it has the transactions. -/
def finishRequest (h : BlockProposalRequestHeader) (transactions : List Transaction) :
    EStateM String NodeState Response := do
  modify fun s => {s with requests := s.requests.erase h}
  checkState (decide (0 < h.timeStamp)) "requestHeader->getTimeStamp() > 0"
  match receivedBlockProposal n h transactions with
  | .error e => throw e
  | .ok proposal =>
    match proposal.verifyProposalECDSA n.cm h.hash h.signature with
    | .error _ => return (.error, .signatureDidNotVerify)
    | .ok _ =>
      signDAProof n proposal
      (proposedBlockArrived n proposal).adaptExcept
        fun _ => "Couldnt create/send final response header"
      return (.success, .ok)

/-! ### DA proofs -/

structure SubmitDAProofRequestHeader where
  schainID : SchainID
  blockID : ℕ
  proposerIndex : SchainIndex
  proposerNodeID : NodeID
  thresholdSig : Bytes
  blockHash : Bytes
deriving DecidableEq, Repr

/-- The constructor of `SubmitDAProofRequestHeader`. -/
def submitDAProofRequestHeader (js : Json) : Except String SubmitDAProofRequestHeader := do
  let schainID ← js.getUint64 "schainID"
  let blockID ← js.getUint64 "blockID"
  let proposerIndex ← js.getUint64 "proposerIndex"
  checkArgument (decide (proposerIndex ≤ n.cm.nodeCount))
    "( uint64_t ) proposerIndex <= ( uint64_t ) _nodeCount"
  checkArgument (decide (0 < proposerIndex)) "proposerIndex > 0"
  let proposerNodeID ← js.getUint64 "proposerNodeID"
  let thresholdSig ← js.getString "thrSig"
  checkState (!thresholdSig.isEmpty) "!thresholdSig.empty()"
  let blockHash ← js.getString "hash"
  checkState (!blockHash.isEmpty) "!blockHash.empty()"
  return {schainID, blockID, proposerIndex, proposerNodeID, thresholdSig, blockHash}

/-- The checks of `createDAProofResponseHeader` before the one of the signature; the first
three throw. -/
def refuseDAProof (s : NodeState) (h : SubmitDAProofRequestHeader) :
    Except String (Option Response) :=
  if n.schainID ≠ h.schainID then throw "Incorrect schain"
  else match n.nodeInfosById h.proposerNodeID with
  | none => throw "Could not find node info for NODE_ID"
  | some nmi =>
    if nmi.schainIndex ≠ h.proposerIndex then throw "Node schain index does not match"
    else if h.blockID ≤ s.lastCommittedBlockID then
      pure (some (.disconnect, .blockProposalTooLate))
    else if s.lastCommittedBlockID + 1 < h.blockID then
      pure (some (.retryLater, .blockProposalInTheFuture))
    else if isEnoughProofs n s h.blockID then pure (some (.disconnect, .alreadyHaveEnoughProposals))
    else pure none

/-- The checks against the stored proposal, and the storing of the proof. -/
def storeDAProof (h : SubmitDAProofRequestHeader) : EStateM String NodeState Response := do
  let s ← get
  match getBlockProposal n s h.blockID h.proposerIndex with
  | none => return (.disconnect, .dontHaveProposalForThisDAProof)
  | some proposal =>
    if toHex (proposal.hash n.cm.blake3) ≠ h.blockHash then return (.disconnect, .invalidHash)
    else if (s.daProofDB ⟨proposal.blockID, proposal.proposerIndex⟩).isSome then
      return (.disconnect, .alreadyHaveDAProof)
    else
      daProofArrived ⟨proposal.blockID, proposal.proposerIndex⟩ h.thresholdSig
      return (.success, .ok)

def createDAProofResponseHeader (h : SubmitDAProofRequestHeader) :
    EStateM String NodeState Response := do
  let s ← get
  match refuseDAProof n s h with
  | .error e => throw e
  | .ok (some response) => return response
  | .ok none =>
    match fromHex h.blockHash with
    | .error _ => return (.disconnect, .invalidHash)
    | .ok blockHash =>
      if ← returned (withSessionKeys (verifyDAProofThresholdSig n.cm
          ⟨blockHash, h.thresholdSig, h.blockID, currentTimeStamp⟩)) then storeDAProof n h
      else return (.disconnect, .signatureDidNotVerify)

def processDAProofRequest (js : Json) : EStateM String NodeState Response :=
  match submitDAProofRequestHeader n js with
  | .error _ => throw "Couldnt create DAProof response header"
  | .ok h => (createDAProofResponseHeader n h).adaptExcept
      fun _ => "Couldnt create DAProof response header"

/-! ### Own proposals -/

/-- What `buildBlockProposal` gets from the queue, the clock and SGX. -/
structure Draft where
  transactions : List Transaction
  stateRoot : BitVec 256
  stamp : TimeStamp
  signature : Bytes
deriving DecidableEq, Repr

/-- The constructor of `MyBlockProposal`. -/
def myBlockProposal (blockID : ℕ) (d : Draft) : Except String BlockProposal := do
  let proposerNodeID ← getNodeIDByIndex n.cm n.me
  BlockProposal.make {
    schainID := n.schainID, proposerNodeID, blockID, proposerIndex := n.me,
    transactionList := d.transactions, stateRoot := d.stateRoot, timeStamp := d.stamp.s,
    timeStampMs := d.stamp.ms, signature := d.signature }

/-- The part of `proposeNextBlock` that finds or builds the proposal. -/
def nextProposal (d : Draft) : EStateM String NodeState BlockProposal := do
  let s ← get
  let proposedBlockID := s.lastCommittedBlockID + 1
  if (s.proposalHashDB ⟨proposedBlockID, n.me⟩).isSome then
    match getBlockProposal n s proposedBlockID n.me with
    | none => throw "State check failed::myProposal"
    | some myProposal =>
      checkState (decide (myProposal.proposerIndex = n.me))
        "myProposal->getProposerIndex() == getSchainIndex()"
      return myProposal
  else match myBlockProposal n proposedBlockID d with
    | .error e => throw e
    | .ok myProposal =>
      set {s with proposed := myProposal :: s.proposed}
      return myProposal

/-! ### The node's steps -/

/-- What can happen at a node, each in one piece; between two of them anything else may. -/
inductive NodeEvent where
  | request (js : Json) (now : ℕ)
  | finish (h : BlockProposalRequestHeader) (transactions : List Transaction)
  /-- A request ends with an exception before its signature is checked. -/
  | drop (h : BlockProposalRequestHeader)
  | daProof (js : Json)
  /-- `DASigShareDB` has merged the proof of the node's own proposal. -/
  | merged (proposal : BlockProposal) (signature : Bytes)
  /-- `blockCommitsArrivedThroughCatchup` comes to a block. -/
  | catchup (block : CommittedBlock)
  | pushed
  | build (d : Draft)
  | store
  | save
  | sign
  /-- `proposeNextBlock` ends with an exception. -/
  | abort
  | restart

/-- `processCommittedBlock` up to `pushBlockToExtFace`. -/
def startCommit (block : CommittedBlock) (s : NodeState) : NodeState :=
  {s with proposalCaches := s.proposalCaches.cleanup block, holder := .pushing block}

/-- `updateLastCommittedBlockInfo`. -/
def endCommit (block : CommittedBlock) (s : NodeState) : NodeState :=
  {s with
    lastCommittedBlockID := block.blockID
    lastCommittedBlockTimeStamp := block.getTimeStamp
    holder := .proposing}

/-- The holder of the mutex goes on if its instruction returned. -/
def holderAfter {α : Type} (x : EStateM String NodeState α) (next : α → Holder) (s : NodeState) :
    NodeState :=
  {finalState x s with holder := ((result? x s).map next).getD .nobody}

/-- The databases are kept; a block that was saved was committed. -/
def restarted (s : NodeState) : NodeState :=
  let back : NodeState := {s with
    proposalCaches := .empty, sessionPublicKeys := .empty, requests := [], holder := .proposing}
  match s.holder with
  | .pushing block => endCommit block back
  | _ => back

def nodeStep : NodeEvent → NodeState → Option NodeState
  | .request js now, s => some (finalState (openRequest n js now) s)
  | .finish h transactions, s =>
    if h ∈ s.requests ∧ transactions.length = h.txCount then
      some (finalState (finishRequest n h transactions) s)
    else none
  | .drop h, s =>
    if h ∈ s.requests then some {s with requests := s.requests.erase h} else none
  | .daProof js, s => some (finalState (processDAProofRequest n js) s)
  | .merged proposal signature, s =>
    if proposal.proposerIndex = n.me then
      some (finalState (daProofArrived ⟨proposal.blockID, n.me⟩ signature) s)
    else none
  | .catchup block, s =>
    if (s.holder = .nobody ∨ s.holder = .proposing) ∧
        block.blockID = s.lastCommittedBlockID + 1 ∧
        s.lastCommittedBlockTimeStamp.lt block.getTimeStamp = true then
      some (startCommit block s)
    else none
  | .pushed, s =>
    match s.holder with
    | .pushing block => some (endCommit block s)
    | _ => none
  | .build d, s =>
    match s.holder with
    | .proposing => some (holderAfter (nextProposal n d) .built s)
    | _ => none
  | .store, s =>
    match s.holder with
    | .built p => some (holderAfter (proposedBlockArrived n p) (fun _ => .stored p) s)
    | _ => none
  | .save, s =>
    match s.holder with
    | .stored p => some (holderAfter
        (checkAndSaveHash ⟨s.lastCommittedBlockID + 1, n.me⟩ (toHex (p.hash n.cm.blake3)))
        (fun _ => .saved p) s)
    | _ => none
  | .sign, s =>
    match s.holder with
    | .saved p => some (holderAfter (signDAProof n p) (fun _ => .nobody) s)
    | _ => none
  | .abort, s =>
    match s.holder with
    | .pushing _ => none
    | _ => some {s with holder := .nobody}
  | .restart, s => some (restarted s)

end Server

end SkaleConsensus.Proposal
