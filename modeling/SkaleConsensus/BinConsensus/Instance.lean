import SkaleConsensus.Common
import SkaleConsensus.Library.OrderedMap
import SkaleConsensus.Library.Program

/-! One binary consensus, as the code runs it.

A `BinConsensusInstance` votes on whether one proposer's block goes into the
chain. Its handlers are translated one for one, in the order the source mutates
the object, sends and throws: a handler is a program that keeps what it wrote
before a failed check. What a handler hands to `Network::broadcastMessage` and
reports to its parent is collected in `Exec`.

The handlers call each other in a circle: a round that ends enters the next one,
whose value may at once have a quorum, which may end that round too. The circle
is cut at `proceedWithNextRound`: the others take it as a parameter, and it is
defined by recursion on a fuel that its own check `getCurrentRound() < 100`
never lets run out (`proceedWithNextRound_eq`).

Left out are the debug history, the statistics for the log and the writes to the
consensus state database, none of which is read back. -/
namespace SkaleConsensus.BinConsensus
open Library

inductive MsgType where
  | bvBroadcast
  | auxBroadcast
deriving DecidableEq, Repr

/-- A threshold signature share: who made it, and its text. -/
structure SigShare where
  signerIndex : SchainIndex
  sigShare : String
deriving DecidableEq, Repr

/-- What a `BVBroadcastMessage` or `AUXBroadcastMessage` tells the protocol. -/
structure Message where
  msgType : MsgType
  blockID : ℕ
  blockProposerIndex : SchainIndex
  r : ℕ
  value : Value
  sigShare : Option SigShare
deriving DecidableEq, Repr

def Message.key (m : Message) : ProtocolKey := ⟨m.blockID, m.blockProposerIndex⟩

/-- `ORIGIN_NETWORK` or `ORIGIN_PARENT`. -/
inductive MessageOrigin where
  | network
  | parent
deriving DecidableEq, Repr

structure MessageEnvelope where
  origin : MessageOrigin
  message : Message
  srcSchainIndex : SchainIndex
deriving DecidableEq, Repr

/-- What an instance reads of its node: the chain's size, the node's place in it,
and the cryptography. The share set of the BLS library is the list of shares it
was given, with the library's own `addSigShare`, `isEnough` and merge. -/
structure Schain where
  schainID : SchainID
  nodeCount : ℕ
  schainIndex : SchainIndex
  sgxEnabled : Bool
  blake3 : List UInt8 → Hash
  signBinaryConsensusSigShare : Hash → ℕ → ℕ → SigShare
  verifyThresholdSigShare : SigShare → Hash → Bool
  addSigShare : List SigShare → SigShare → List SigShare
  isEnough : List SigShare → Bool
  mergeSignatureGetRandom : List SigShare → ℕ

/-- The protocol fields of `BinConsensusInstance`. -/
structure BinConsensusInstance where
  blockID : ℕ
  blockProposerIndex : SchainIndex
  /-- The estimate each round was entered with. -/
  proposals : ℕ → Option Value
  /-- Keeps a value from being broadcast twice. -/
  broadcastValues : ℕ → Finset Value
  isDecided : Bool
  decidedValue : Value
  decidedRound : ℕ
  currentRound : ℕ
  bvbTrueVotes : ℕ → Finset SchainIndex
  bvbFalseVotes : ℕ → Finset SchainIndex
  auxTrueVotes : ℕ → OrderedMap SchainIndex (Option SigShare)
  auxFalseVotes : ℕ → OrderedMap SchainIndex (Option SigShare)
  binValues : ℕ → Finset Value

namespace BinConsensusInstance

def create (key : ProtocolKey) : BinConsensusInstance where
  blockID := key.blockID
  blockProposerIndex := key.blockProposerIndex
  proposals := fun _ => none
  broadcastValues := fun _ => ∅
  isDecided := false
  decidedValue := 0
  decidedRound := 0
  currentRound := 0
  bvbTrueVotes := fun _ => ∅
  bvbFalseVotes := fun _ => ∅
  auxTrueVotes := fun _ => .empty
  auxFalseVotes := fun _ => .empty
  binValues := fun _ => ∅

variable (s : BinConsensusInstance)

def key : ProtocolKey := ⟨s.blockID, s.blockProposerIndex⟩

/-- The nodes counted for a truth value; every nonzero value counts as true. -/
def bvbVotes (b : Bool) (r : ℕ) : Finset SchainIndex :=
  if b then s.bvbTrueVotes r else s.bvbFalseVotes r

def auxVotes (b : Bool) (r : ℕ) : OrderedMap SchainIndex (Option SigShare) :=
  if b then s.auxTrueVotes r else s.auxFalseVotes r

def getBVBVoteCount (v : Value) (r : ℕ) : ℕ := (s.bvbVotes v.toBool r).card

def totalAUXVotes (r : ℕ) : ℕ := (s.auxTrueVotes r).size + (s.auxFalseVotes r).size

def bvbVoteCore (r : ℕ) (v : Value) (index : SchainIndex) : BinConsensusInstance :=
  {s with
    bvbTrueVotes :=
      if v.toBool then Function.update s.bvbTrueVotes r (insert index (s.bvbTrueVotes r))
      else s.bvbTrueVotes
    bvbFalseVotes :=
      if v.toBool then s.bvbFalseVotes
      else Function.update s.bvbFalseVotes r (insert index (s.bvbFalseVotes r))}

/-- `insert` on a map keeps the share that is there. -/
def auxVoteCore (r : ℕ) (v : Value) (index : SchainIndex) (share : Option SigShare) :
    BinConsensusInstance :=
  {s with
    auxTrueVotes :=
      if v.toBool then
        Function.update s.auxTrueVotes r ((s.auxTrueVotes r).emplace index share)
      else s.auxTrueVotes
    auxFalseVotes :=
      if v.toBool then s.auxFalseVotes
      else Function.update s.auxFalseVotes r ((s.auxFalseVotes r).emplace index share)}

def insertIntoBinValues (r : ℕ) (v : Value) : BinConsensusInstance :=
  {s with binValues := Function.update s.binValues r (insert v (s.binValues r))}

def insertIntoBroadcastValues (r : ℕ) (v : Value) : BinConsensusInstance :=
  {s with broadcastValues := Function.update s.broadcastValues r (insert v (s.broadcastValues r))}

def setProposal (r : ℕ) (v : Value) : BinConsensusInstance :=
  {s with proposals := Function.update s.proposals r (some v)}

def setCurrentRound (r : ℕ) : BinConsensusInstance := {s with currentRound := r}

def setDecidedRoundAndValue (r : ℕ) (v : Value) : BinConsensusInstance :=
  {s with isDecided := true, decidedRound := r, decidedValue := v}

/-- True is a binary value and some node sent it as an AUX vote; likewise false. -/
def hasValue (b : Bool) (r : ℕ) : Bool :=
  decide (Value.ofBool b ∈ s.binValues r) && decide (0 < (s.auxVotes b r).size)

/-- The AUX votes for binary values. A node that sent both values counts twice. -/
def verifiedValuesSize (r : ℕ) : ℕ :=
  (if s.hasValue true r then (s.auxTrueVotes r).size else 0) +
    (if s.hasValue false r then (s.auxFalseVotes r).size else 0)

end BinConsensusInstance

def isThird (c : Schain) (count : ℕ) : Bool := decide (c.nodeCount < count * 3)

def isTwoThird (c : Schain) (count : ℕ) : Bool := decide (2 * c.nodeCount < count * 3)

/-- `AUXBroadcastMessage::getCommonCoinHash`; the last field is `MSG_AUX_BROADCAST`. -/
def getCommonCoinHash (c : Schain) (key : ProtocolKey) (r : ℕ) : Hash :=
  c.blake3 (commonCoinHashInput key.blockProposerIndex r key.blockID c.schainID 3)

/-! ### The coin -/

/-- One loop of `calculateBLSRandom`: add shares until they are enough. -/
def addShares (c : Schain) : List SigShare → List (SchainIndex × Option SigShare) →
    Except String (List SigShare)
  | shares, [] => .ok shares
  | _, (_, none) :: _ => .error "State check failed::item.second"
  | shares, (_, some share) :: rest =>
    if c.isEnough (c.addSigShare shares share) then .ok (c.addSigShare shares share)
    else addShares c (c.addSigShare shares share) rest

def calculateBLSRandom (c : Schain) (s : BinConsensusInstance) (r : ℕ) : Except String ℕ := do
  let shares ← if s.hasValue true r then addShares c [] (s.auxTrueVotes r).entries else .ok []
  let shares ← if s.hasValue false r then addShares c shares (s.auxFalseVotes r).entries
    else .ok shares
  if c.isEnough shares then .ok (c.mergeSignatureGetRandom shares)
  else .error "State check failed::shares->isEnough()"

/-- The random number of a round: the BLS coin from `COMMON_COIN_ROUND` on, where
SGX signs it; a hash of the names before that. -/
def roundRandom (c : Schain) (s : BinConsensusInstance) (r : ℕ) : Except String ℕ :=
  if c.sgxEnabled && decide (COMMON_COIN_ROUND ≤ r) then calculateBLSRandom c s r
  else .ok (firstUint64 (c.blake3 (textBytes
    (toString s.blockID ++ ":" ++ toString r ++ ":" ++ toString s.blockProposerIndex))))

/-- `common_coin_value` of a random number. -/
def commonCoinValue (random : ℕ) : Bool := random % 2 == 0

/-! ### Handlers -/

/-- An instance with what it left outside of itself: its broadcasts, its entries of
the random database and its reports to its parent, oldest first. -/
structure Exec where
  inst : BinConsensusInstance
  sent : List Message
  randomDB : List (ℕ × ℕ)
  reported : List (Value × ℕ)

abbrev Handler := EStateM String Exec

def modifyInst (f : BinConsensusInstance → BinConsensusInstance) : Handler Unit :=
  modify fun s => {s with inst := f s.inst}

def broadcastMessage (m : Message) : Handler Unit :=
  modify fun s => {s with sent := s.sent ++ [m]}

def writeRandom (r : ℕ) (random : ℕ) : Handler Unit :=
  modify fun s => {s with randomDB := s.randomDB ++ [(r, random)]}

/-- Returns whether the vote is new. -/
def bvbVote (r : ℕ) (v : Value) (index : SchainIndex) : Handler Bool := do
  let s ← get
  modifyInst fun i => i.bvbVoteCore r v index
  pure (decide (index ∉ s.inst.bvbVotes v.toBool r))

/-- Returns whether the vote is new. A share goes with a vote exactly from the
common coin round on. -/
def auxVoteCore (r : ℕ) (v : Value) (index : SchainIndex) (share : Option SigShare) :
    Handler Bool := do
  let s ← get
  checkState (decide (COMMON_COIN_ROUND ≤ r) == share.isSome) "_sigShare"
  modifyInst fun i => i.auxVoteCore r v index share
  pure (decide (index ∉ (s.inst.auxVotes v.toBool r).keys))

/-- The share an AUX message of round `r` must bring, checked. -/
def auxVoteShare (c : Schain) (m : Message) : Except String (Option SigShare) :=
  if COMMON_COIN_ROUND ≤ m.r then
    match m.sigShare with
    | none => .error "State check failed::sigShare"
    | some share =>
      if c.verifyThresholdSigShare share (getCommonCoinHash c m.key m.r) then .ok (some share)
      else .error "verifyThresholdSigShare"
  else .ok none

def auxVote (c : Schain) (m : Message) (index : SchainIndex) : Handler Bool :=
  match auxVoteShare c m with
  | .error e => throw e
  | .ok share => auxVoteCore m.r m.value index share

/-- The value goes out as it came in; what is remembered of it is whether it was one. -/
def networkBroadcastValue (m : Message) : Handler Unit := do
  let s ← get
  if m.value ∈ s.inst.broadcastValues m.r then pure ()
  else
    broadcastMessage {m with msgType := .bvBroadcast, sigShare := none}
    modifyInst fun i => i.insertIntoBroadcastValues m.r (Value.ofBool (m.value == 1))

def networkBroadcastValueIfThird (c : Schain) (m : Message) : Handler Unit := do
  let s ← get
  if isThird c (s.inst.getBVBVoteCount m.value m.r) then networkBroadcastValue m
  else pure ()

def auxSelfVoteAndBroadcastValue (c : Schain) (r : ℕ) (v : Value) : Handler Unit := do
  let s ← get
  let share := if COMMON_COIN_ROUND ≤ r then
      some (c.signBinaryConsensusSigShare (getCommonCoinHash c s.inst.key r) s.inst.blockID r)
    else none
  let _ ← auxVoteCore r v c.schainIndex share
  broadcastMessage ⟨.auxBroadcast, s.inst.blockID, s.inst.blockProposerIndex, r, v, share⟩

def computeRandom (c : Schain) (r : ℕ) : Handler ℕ := do
  let s ← get
  match roundRandom c s.inst r with
  | .error e => throw e
  | .ok random =>
    writeRandom r random
    pure random

/-- `BinConsensusInstance::decide`. -/
def decideValue (v : Value) : Handler Unit := do
  let s ← get
  checkState (!s.inst.isDecided) "!isDecided"
  modifyInst fun i => i.setDecidedRoundAndValue i.currentRound v
  modify fun s => {s with reported := s.reported ++ [(v, s.inst.currentRound)]}

section Circle
variable (c : Schain) (proceedWithNextRound : Value → Handler Unit)

/-- Section 4.2 (07)-(10) of the paper the source follows. -/
def playDecisionLottery (hasTrue hasFalse : Bool) (random : ℕ) : Handler Unit := do
  let s ← get
  checkState (!s.inst.isDecided) "!isDecided"
  if hasTrue && hasFalse then
    -- both values: the next round starts from the coin
    proceedWithNextRound (Value.ofBool (commonCoinValue random))
  else if hasTrue == commonCoinValue random then
    decideValue (Value.ofBool hasTrue)
  else
    proceedWithNextRound (Value.ofBool hasTrue)

def proceedWithDecisionLotteryIfAUXTwoThird (r : ℕ) : Handler Unit := do
  let s ← get
  if s.inst.isDecided then pure ()
  else
    checkState (r == s.inst.currentRound) "_r == getCurrentRound()"
    if isTwoThird c (s.inst.verifiedValuesSize r) then
      let random ← computeRandom c r
      playDecisionLottery proceedWithNextRound (s.inst.hasValue true r) (s.inst.hasValue false r)
        random
    else pure ()

def addToBinValuesIfTwoThirds (m : Message) : Handler Unit := do
  let s ← get
  if m.value ∈ s.inst.binValues m.r then pure ()
  else if isTwoThird c (s.inst.getBVBVoteCount m.value m.r) then
    modifyInst fun i => i.insertIntoBinValues m.r m.value
    let s ← get
    -- the first value of a round is the one sent as AUX
    (if 1 < (s.inst.binValues m.r).card then pure ()
      else auxSelfVoteAndBroadcastValue c m.r m.value)
    if m.r = s.inst.currentRound then
      proceedWithDecisionLotteryIfAUXTwoThird c proceedWithNextRound m.r
    else pure ()
  else pure ()

/-- A decided instance does nothing but follow into the next round when asked. -/
def ifAlreadyDecidedSendDelayedEstimateForNextRound (r : ℕ) : Handler Unit := do
  let s ← get
  if s.inst.isDecided ∧ r = s.inst.currentRound + 1 ∧
      isTwoThird c (s.inst.totalAUXVotes s.inst.currentRound) then
    proceedWithNextRound s.inst.decidedValue
  else pure ()

/-- The text of `proceedWithNextRound`: enter the next round with the estimate `v`. -/
def enterNextRound (v : Value) : Handler Unit := do
  let s ← get
  checkState (decide (s.inst.currentRound < 100)) "getCurrentRound() < 100"
  checkState (isTwoThird c (s.inst.totalAUXVotes s.inst.currentRound))
    "isTwoThird( totalAUXVotes( getCurrentRound() ) )"
  modifyInst fun i => i.setCurrentRound (s.inst.currentRound + 1)
  modifyInst fun i => i.setProposal (s.inst.currentRound + 1) v
  let m : Message := ⟨.bvBroadcast, s.inst.blockID, s.inst.blockProposerIndex,
    s.inst.currentRound + 1, v, none⟩
  networkBroadcastValue m
  let fresh ← bvbVote m.r v c.schainIndex
  if fresh then addToBinValuesIfTwoThirds c proceedWithNextRound m
  else pure ()

end Circle

/-- The fuel is the number of rounds that may still be entered on the way. -/
def proceedWithNextRoundFuel (c : Schain) : ℕ → Value → Handler Unit
  | 0, _ => throw "State check failed::getCurrentRound() < 100"
  | fuel + 1, v => enterNextRound c (proceedWithNextRoundFuel c fuel) v

def proceedWithNextRound (c : Schain) (v : Value) : Handler Unit :=
  proceedWithNextRoundFuel c 100 v

def processNetworkMessageImpl (c : Schain) (me : MessageEnvelope) : Handler Unit := do
  let s ← get
  let m := me.message
  checkState (decide (m.r ≤ s.inst.currentRound + 1)) "round <= getCurrentRound() + 1"
  match m.msgType with
  | .bvBroadcast =>
    let fresh ← bvbVote m.r m.value me.srcSchainIndex
    if fresh then
      networkBroadcastValueIfThird c m
      ifAlreadyDecidedSendDelayedEstimateForNextRound c (proceedWithNextRound c) m.r
      addToBinValuesIfTwoThirds c (proceedWithNextRound c) m
    else pure ()
  | .auxBroadcast =>
    let fresh ← auxVote c m me.srcSchainIndex
    if fresh then
      let s ← get
      if m.r = s.inst.currentRound then
        proceedWithDecisionLotteryIfAUXTwoThird c (proceedWithNextRound c) m.r
      else pure ()
    else pure ()

def processParentProposal (c : Schain) (me : MessageEnvelope) : Handler Unit := do
  let m := me.message
  checkState (m.r == 0) "m->getRound() == 0"
  modifyInst fun i => i.setProposal m.r m.value
  networkBroadcastValue m
  let _ ← bvbVote m.r m.value me.srcSchainIndex
  addToBinValuesIfTwoThirds c (proceedWithNextRound c) m

def processMessage (c : Schain) (me : MessageEnvelope) : Handler Unit := do
  let s ← get
  checkState (me.message.blockID == s.inst.blockID) "msg->getBlockID() == getBlockID()"
  checkState (me.message.blockProposerIndex == s.inst.blockProposerIndex)
    "msg->getBlockProposerIndex() == getBlockProposerIndex()"
  match me.origin with
  | .network => processNetworkMessageImpl c me
  | .parent => processParentProposal c me

end SkaleConsensus.BinConsensus
