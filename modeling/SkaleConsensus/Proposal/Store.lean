import SkaleConsensus.Block.Wire

/-! What a node keeps about the proposals of a block.

The proposals themselves are in a cache with one slot a proposer, and the node's own
also in LevelDB; the hash that was first heard of for a block and a proposer is in
`ProposalHashDB`; the DA proofs are in `DAProofDB`. The cache and the running requests
are memory; the databases survive a restart. -/
namespace SkaleConsensus.Proposal
open Library Block Crypto

/-! ### The cache of proposals -/

/-- `proposalCaches`: a proposal is in the slot of its proposer. -/
structure ProposalCaches where
  slot : SchainIndex → Option BlockProposal
  index_eq : ∀ p proposal, slot p = some proposal → proposal.proposerIndex = p

namespace ProposalCaches

def empty : ProposalCaches := ⟨fun _ => none, fun _ _ h => nomatch h⟩

def put (c : ProposalCaches) (proposal : BlockProposal) : ProposalCaches where
  slot := Function.update c.slot proposal.proposerIndex (some proposal)
  index_eq p proposal' h := by
    rcases eq_or_ne p proposal.proposerIndex with rfl | hne
    · rw [Function.update_self] at h
      rw [← Option.some.inj h]
    · rw [Function.update_of_ne hne] at h
      exact c.index_eq p proposal' h

/-- `addProposalToCacheIfDoesNotExist`. -/
def add (c : ProposalCaches) (proposal : BlockProposal) : ProposalCaches :=
  match c.slot proposal.proposerIndex with
  | none => c.put proposal
  | some previousProposal =>
    if proposal.blockID < previousProposal.blockID then c
    -- "Trying to add a proposal with same block id" is logged under the same test again.
    else if proposal.blockID < previousProposal.blockID then c
    else c.put proposal

/-- `cleanupUnneededMemoryBeforePushingToEvm`. -/
def cleanup (c : ProposalCaches) (block : CommittedBlock) : ProposalCaches where
  slot p := (c.slot p).filter fun cached =>
    !(cached.proposerIndex != block.proposerIndex || decide (cached.blockID ≤ block.blockID))
  index_eq p proposal h := c.index_eq p proposal (Option.filter_eq_some_iff.mp h).1

variable {c : ProposalCaches} {proposal : BlockProposal} {p : SchainIndex}

theorem slot_put_self : (c.put proposal).slot proposal.proposerIndex = some proposal :=
  Function.update_self ..

theorem slot_put_of_ne (h : p ≠ proposal.proposerIndex) : (c.put proposal).slot p = c.slot p :=
  Function.update_of_ne h ..

theorem slot_add_of_ne (h : p ≠ proposal.proposerIndex) : (c.add proposal).slot p = c.slot p := by
  unfold add
  split
  · exact slot_put_of_ne h
  · split_ifs
    · rfl
    · exact slot_put_of_ne h

/-- A proposal that is added takes the slot, also from one for the same block, unless the
slot is at a later block. -/
theorem slot_add_self (c : ProposalCaches) (proposal : BlockProposal) :
    (c.add proposal).slot proposal.proposerIndex = some proposal ∨
      ∃ previous, c.slot proposal.proposerIndex = some previous ∧
        proposal.blockID < previous.blockID ∧
        (c.add proposal).slot proposal.proposerIndex = some previous := by
  unfold add
  cases h : c.slot proposal.proposerIndex with
  | none => exact .inl slot_put_self
  | some previous =>
    dsimp only
    split_ifs with hlater
    · exact .inr ⟨previous, rfl, hlater, h⟩
    · exact .inl slot_put_self

theorem slot_of_cleanup {block : CommittedBlock} (h : (c.cleanup block).slot p = some proposal) :
    c.slot p = some proposal :=
  (Option.filter_eq_some_iff.mp h).1

end ProposalCaches

/-! ### The node -/

/-- What does not change while a node runs. -/
structure Node extends BlockReader where
  me : SchainIndex
  schainID : SchainID
  nodeInfosById : NodeID → Option NodeInfo
  /-- A switch for tests. -/
  isFinalizationDownloadOnly : Bool

/-- The first of four nodes. -/
def Node.ofFour : Node where
  toBlockReader := .ofFour
  me := 1
  schainID := 1
  nodeInfosById id := if id ∈ [11, 12, 13, 14] then some ⟨id, id - 10⟩ else none
  isFinalizationDownloadOnly := false

structure BlockProposalRequestHeader where
  schainID : SchainID
  blockID : ℕ
  proposerIndex : SchainIndex
  proposerNodeID : NodeID
  timeStamp : ℕ
  timeStampMs : ℕ
  hash : Bytes
  signature : Bytes
  txCount : ℕ
  stateRoot : BitVec 256
deriving DecidableEq, Repr

def BlockProposalRequestHeader.key (h : BlockProposalRequestHeader) : ProtocolKey :=
  ⟨h.blockID, h.proposerIndex⟩

/-- What the holder of `blockProcessMutex` is at. -/
inductive Holder where
  | nobody
  /-- `processCommittedBlock`, from the saved block to the update of the last block. -/
  | pushing (block : CommittedBlock)
  /-- `proposeNextBlock`, at its start, with its proposal, after the proposal is stored and
  after its hash is. -/
  | proposing
  | built (proposal : BlockProposal)
  | stored (proposal : BlockProposal)
  | saved (proposal : BlockProposal)
deriving DecidableEq, Repr

/-- The proposal `proposeNextBlock` is at. -/
def Holder.proposal? : Holder → Option BlockProposal
  | .built proposal | .stored proposal | .saved proposal => some proposal
  | _ => none

structure NodeState where
  lastCommittedBlockID : ℕ
  lastCommittedBlockTimeStamp : TimeStamp
  proposalCaches : ProposalCaches
  /-- The node's own proposals in LevelDB, by block. -/
  proposalDB : ℕ → Option BlockProposal
  proposalHashDB : ProtocolKey → Option Bytes
  daProofDB : ProtocolKey → Option Bytes
  sessionPublicKeys : SessionCache
  /-- The requests that were told to proceed and are still being read. -/
  requests : List BlockProposalRequestHeader
  holder : Holder
  /-- Not in the code: the proposals that this node made and signed as their proposer. -/
  proposed : List BlockProposal
  /-- Not in the code: what this node made DA signature shares for. -/
  daSigned : List (ProtocolKey × Hash)

/-- A node that was never started. -/
def NodeState.genesis : NodeState where
  lastCommittedBlockID := 0
  lastCommittedBlockTimeStamp := ⟨0, 0⟩
  proposalCaches := .empty
  proposalDB _ := none
  proposalHashDB _ := none
  daProofDB _ := none
  sessionPublicKeys := .empty
  requests := []
  holder := .proposing
  proposed := []
  daSigned := []

section Databases
variable (n : Node)

def getBlockProposal (s : NodeState) (blockID : ℕ) (proposerIndex : SchainIndex) :
    Option BlockProposal :=
  ((s.proposalCaches.slot proposerIndex).filter (·.blockID == blockID)).or
    (if n.me = proposerIndex then s.proposalDB blockID else none)

/-- `BlockProposalDB::addBlockProposal`. In LevelDB the first proposal for a block stays. -/
def addBlockProposal (proposal : BlockProposal) : EStateM String NodeState Unit := do
  checkState (decide (proposal.proposerIndex ≤ n.cm.nodeCount))
    "( uint64_t ) proposerIndex <= getSchain()->getNodeCount()"
  checkState (decide (0 < proposal.proposerIndex)) "proposerIndex > 0"
  modify fun s => {s with proposalCaches := s.proposalCaches.add proposal}
  if proposal.proposerIndex = n.me then
    modify fun s => {s with
      proposalDB := Function.update s.proposalDB proposal.blockID
        ((s.proposalDB proposal.blockID).or (some proposal))}

/-- `Schain::proposedBlockArrived`. -/
def proposedBlockArrived (proposal : BlockProposal) : EStateM String NodeState Unit := do
  let s ← get
  if s.lastCommittedBlockID < proposal.blockID then addBlockProposal n proposal

/-- `ProposalHashDB::checkAndSaveHash`: the first hash stays. -/
def checkAndSaveHash (key : ProtocolKey) (proposalHash : Bytes) :
    EStateM String NodeState Bool := do
  checkArgument (!proposalHash.isEmpty) "!_proposalHash.empty()"
  let s ← get
  match s.proposalHashDB key with
  | some previous => return previous == proposalHash
  | none =>
    set {s with proposalHashDB := Function.update s.proposalHashDB key (some proposalHash)}
    return true

/-- `DAProofDB::isEnoughProofs`. -/
def isEnoughProofs (s : NodeState) (blockID : ℕ) : Bool :=
  decide (getRequiredSigners n.cm.nodeCount ≤
    ((List.range' 1 n.cm.nodeCount).filter fun p => (s.daProofDB ⟨blockID, p⟩).isSome).length)

/-- `Schain::daProofArrived`, as far as `DAProofDB`: the first proof stays. -/
def daProofArrived (key : ProtocolKey) (signature : Bytes) : EStateM String NodeState Unit :=
  modify fun s =>
    if key.blockID ≤ s.lastCommittedBlockID then s
    else {s with daProofDB :=
      Function.update s.daProofDB key ((s.daProofDB key).or (some signature))}

/-- `CryptoManager::signDAProof`. -/
def signDAProof (proposal : BlockProposal) : EStateM String NodeState Unit :=
  modify fun s => {s with
    daSigned := (⟨proposal.blockID, proposal.proposerIndex⟩, proposal.hash n.cm.blake3) ::
      s.daSigned}

/-- The functions that verify keep to the cache of session keys. -/
def withSessionKeys {α : Type} (x : EStateM String SessionCache α) : EStateM String NodeState α :=
  fun s => match x.run s.sessionPublicKeys with
    | .ok a c => .ok a {s with sessionPublicKeys := c}
    | .error e c => .error e {s with sessionPublicKeys := c}

theorem getBlockProposal_of_slot {n : Node} {s : NodeState} {proposerIndex : SchainIndex}
    {p : BlockProposal} (h : s.proposalCaches.slot proposerIndex = some p) :
    getBlockProposal n s p.blockID proposerIndex = some p := by
  unfold getBlockProposal
  rw [h, Option.filter_some, if_pos (beq_self_eq_true p.blockID), Option.some_or]

theorem of_getBlockProposal {n : Node} {s : NodeState} {blockID : ℕ} {proposerIndex : SchainIndex}
    {p : BlockProposal} (h : getBlockProposal n s blockID proposerIndex = some p) :
    (s.proposalCaches.slot proposerIndex = some p ∧ p.blockID = blockID) ∨
      (n.me = proposerIndex ∧ s.proposalDB blockID = some p) := by
  unfold getBlockProposal at h
  rcases Option.or_eq_some_iff.mp h with hslot | ⟨-, hdb⟩
  · obtain ⟨hslot, hblock⟩ := Option.filter_eq_some_iff.mp hslot
    exact .inl ⟨hslot, eq_of_beq hblock⟩
  · split_ifs at hdb with hme
    exact .inr ⟨hme, hdb⟩

end Databases

end SkaleConsensus.Proposal
