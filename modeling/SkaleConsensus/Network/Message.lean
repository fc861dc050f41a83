import SkaleConsensus.Crypto.SessionKeys

/-! Network messages: what they carry, what of it is signed, and how they are read
from the wire.

A message names its sender twice, by node id and by schain index, and both are
signed. The JSON reader, the BLS library and the parser of oracle requests are
parameters; every other check on the way from bytes to a message is here. What a
failed parse throws is the outermost exception. -/
namespace SkaleConsensus.Network
open Library Crypto

inductive MsgType where
  | bvBroadcast
  | auxBroadcast
  | blockSignBroadcast
  | oracleReqBroadcast
  | oracleRsp
deriving DecidableEq, Repr

/-- `getTypeString`. -/
def MsgType.typeString : MsgType → String
  | .bvBroadcast => "B"
  | .auxBroadcast => "A"
  | .blockSignBroadcast => "S"
  | .oracleReqBroadcast => "O"
  | .oracleRsp => "R"

structure NetworkMessage where
  msgType : MsgType
  schainID : SchainID
  blockID : ℕ
  blockProposerIndex : SchainIndex
  msgID : ℕ
  srcNodeID : NodeID
  srcSchainIndex : SchainIndex
  r : ℕ
  value : Value
  timeMs : ℕ
  sigShareString : Bytes
  ecdsaSig : Bytes
  publicKey : Bytes
  pkSig : Bytes
  /-- The request of an oracle request, the result and the receipt of a response. -/
  child : List Bytes
deriving DecidableEq, Repr

/-- A vote of the first node for its own proposal of the first block, not signed. -/
def NetworkMessage.first : NetworkMessage :=
  ⟨.bvBroadcast, 1, 1, 1, 1, 11, 1, 0, 0, 1, [], [], [], [], []⟩

/-- A text in a digest, after its length, which has 32 bits. -/
def lengthPrefixed (text : Bytes) : Bytes :=
  leBytes 4 text.length ++ text.take (text.length % 2 ^ 32)

/-- What `calculateHash` feeds the hasher. The time is not signed. -/
def NetworkMessage.hashInput (m : NetworkMessage) : Bytes :=
  leBytes 8 m.schainID ++ leBytes 8 m.blockID ++ leBytes 8 m.blockProposerIndex ++
    leBytes 8 m.msgID ++ leBytes 8 m.srcNodeID ++ leBytes 8 m.srcSchainIndex ++ leBytes 8 m.r ++
    [m.value] ++ lengthPrefixed (textBytes m.msgType.typeString) ++
    lengthPrefixed m.sigShareString ++ m.child.flatMap lengthPrefixed

def NetworkMessage.calculateHash (cm : CryptoManager) (m : NetworkMessage) : Hash :=
  cm.blake3 m.hashInput

/-! ### JSON -/

/-- What the parser tells apart in a member. -/
inductive JsonValue where
  | uint64 (n : UInt64)
  | string (text : Bytes)
  | other
deriving DecidableEq, Repr

/-- The members of an object; of two with one name the first is found. -/
abbrev JsonObject := List (String × JsonValue)

def getUint64Rapid (d : JsonObject) (name : String) : Except String UInt64 :=
  match d.lookup name with
  | none => throw ("Check failed::No JSON member:" ++ name)
  | some (.uint64 n) => pure n
  | some _ => throw "State check failed::a.IsUint64()"

def getStringRapid (d : JsonObject) (name : String) : Except String Bytes :=
  match d.lookup name with
  | none => throw ("Check failed::No JSON member:" ++ name)
  | some (.string text) => pure (cString text)
  | some _ => throw "State check failed::_d[_name].IsString()"

/-! ### Writing -/

/-- The numbers of the `MsgType` enumeration. -/
def MsgType.toNat : MsgType → ℕ
  | .bvBroadcast => 2
  | .auxBroadcast => 3
  | .blockSignBroadcast => 12
  | .oracleReqBroadcast => 16
  | .oracleRsp => 17

/-- `writer.String( name )` and `writer.Uint64( n )`. -/
def uint64Member (name : String) (n : ℕ) : String × JsonValue := (name, .uint64 (UInt64.ofNat n))

def stringMember (name : String) (text : Bytes) : String × JsonValue := (name, .string text)

/-- `serializeToStringChild`. -/
def NetworkMessage.childMembers (m : NetworkMessage) : JsonObject :=
  match m.msgType, m.child with
  | .oracleReqBroadcast, [requestSpec] => [stringMember "spec" requestSpec]
  | .oracleRsp, [result, receipt] => [stringMember "rslt" result, stringMember "rcpt" receipt]
  | _, _ => []

/-- The members `serializeToString` writes. -/
def NetworkMessage.members (m : NetworkMessage) : JsonObject :=
  let sigShare := if m.sigShareString.isEmpty then [] else [stringMember "sss" m.sigShareString]
  [stringMember "type" (textBytes m.msgType.typeString), uint64Member "si" m.schainID,
    uint64Member "bi" m.blockID, uint64Member "bpi" m.blockProposerIndex,
    uint64Member "mt" m.msgType.toNat, uint64Member "mi" m.msgID,
    uint64Member "sni" m.srcNodeID, uint64Member "ssi" m.srcSchainIndex, uint64Member "r" m.r,
    uint64Member "t" m.timeMs, uint64Member "v" m.value.toNat] ++ sigShare ++
  [stringMember "sig" m.ecdsaSig, stringMember "pk" m.publicKey, stringMember "pks" m.pkSig] ++
  m.childMembers

/-! ### Parsing -/

/-- What `receiveMessage` reads of its chain, and the libraries it calls. -/
structure Receiver where
  schainID : SchainID
  cm : CryptoManager
  /-- The members of the object a text holds; `none` for a parse error or no object. -/
  rapidjson : Bytes → Option JsonObject
  /-- The constructor of `BLSSigShare` takes this share of this signer. -/
  blsSigShare : Bytes → SchainIndex → Bool
  /-- `OracleRequestSpec::parseSpec` takes this request. -/
  parseSpec : Bytes → Bool

/-- The local variables of `parseMessage`. -/
structure ParsedFields where
  sChainID : ℕ
  blockID : ℕ
  blockProposerIndex : ℕ
  type : Bytes
  msgID : ℕ
  srcNodeID : ℕ
  srcSchainIndex : ℕ
  round : ℕ
  timeMs : ℕ
  value : Value
  sigShare : Bytes
  ecdsaSig : Bytes
  publicKey : Bytes
  pkSig : Bytes

def parseFields (d : JsonObject) : Except String ParsedFields := do
  let sChainID ← getUint64Rapid d "si"
  let blockID ← getUint64Rapid d "bi"
  let blockProposerIndex ← getUint64Rapid d "bpi"
  let type ← getStringRapid d "type"
  let msgID ← getUint64Rapid d "mi"
  let srcNodeID ← getUint64Rapid d "sni"
  let srcSchainIndex ← getUint64Rapid d "ssi"
  let round ← getUint64Rapid d "r"
  let timeMs ← getUint64Rapid d "t"
  let value ← getUint64Rapid d "v"
  let sigShare ← if (d.lookup "sss").isSome then getStringRapid d "sss" else pure []
  let ecdsaSig ← getStringRapid d "sig"
  let publicKey ← getStringRapid d "pk"
  let pkSig ← getStringRapid d "pks"
  checkState (!ecdsaSig.isEmpty) "!ecdsaSig.empty()"
  return {
    sChainID := sChainID.toNat, blockID := blockID.toNat,
    blockProposerIndex := blockProposerIndex.toNat, type, msgID := msgID.toNat,
    srcNodeID := srcNodeID.toNat, srcSchainIndex := srcSchainIndex.toNat, round := round.toNat,
    timeMs := timeMs.toNat, value := value.toUInt8, sigShare, ecdsaSig, publicKey, pkSig }

def ParsedFields.message (w : ParsedFields) (msgType : MsgType) : NetworkMessage where
  msgType := msgType
  schainID := w.sChainID
  blockID := w.blockID
  blockProposerIndex := w.blockProposerIndex
  msgID := w.msgID
  srcNodeID := w.srcNodeID
  srcSchainIndex := w.srcSchainIndex
  r := w.round
  value := w.value
  timeMs := w.timeMs
  sigShareString := []
  ecdsaSig := w.ecdsaSig
  publicKey := w.publicKey
  pkSig := w.pkSig
  child := []

/-- The constructor of `NetworkMessage`. A share for a round before the common coin is a
mockup share, which is any text. -/
def construct (n : Receiver) (m : NetworkMessage) : Except String NetworkMessage := do
  checkState (m.blockID != 0) "( uint64_t ) blockID != 0"
  checkArgument (decide (0 < m.srcSchainIndex)) "_srcSchainIndex > 0"
  checkArgument (!m.ecdsaSig.isEmpty) "!_ecdsaSig.empty()"
  checkArgument (decide (0 < m.timeMs)) "_timeMs > 0"
  if !m.sigShareString.isEmpty && n.cm.isSGXEnabled && decide (COMMON_COIN_ROUND ≤ m.r) then
    if !n.blsSigShare m.sigShareString m.srcSchainIndex then
      throw "Could not create BLSSigShare"
  return m

/-- `isspace` in the C locale. -/
def isSpace (b : UInt8) : Bool := b == 32 || (decide (9 ≤ b) && decide (b ≤ 13))

def createMessage (n : Receiver) (d : JsonObject) (w : ParsedFields) :
    Except String NetworkMessage := do
  if n.schainID != w.sChainID then throw ("unknown Schain id" ++ toString w.sChainID)
  if w.type == textBytes "B" then
    construct n (w.message .bvBroadcast)
  else if w.type == textBytes "A" then
    let m ← construct n {w.message .auxBroadcast with sigShareString := w.sigShare}
    if decide (COMMON_COIN_ROUND ≤ m.r) && n.cm.isSGXEnabled then
      checkState (!w.sigShare.isEmpty) "!_blsSigShare.empty()"
    return m
  else if w.type == textBytes "S" then
    let m ← construct n
      {w.message .blockSignBroadcast with r := 4, value := 0, sigShareString := w.sigShare}
    checkArgument (!w.sigShare.isEmpty) "!_sigShare.empty()"
    return m
  else if w.type == textBytes "O" then
    let spec ← getStringRapid d "spec"
    checkState (!spec.isEmpty) "!spec.empty()"
    let requestSpec := spec.filter fun b => !isSpace b
    let m ← construct n {w.message .oracleReqBroadcast with
      blockProposerIndex := 0, r := 0, value := 0, child := [requestSpec]}
    checkState (spec.head? == some 123 && spec.getLast? == some 125)
      "_requestSpec.front() == '\x7b' && _requestSpec.back() == '\x7d'"
    checkState (n.parseSpec requestSpec) "spec"
    return m
  else if w.type == textBytes "R" then
    let result ← getStringRapid d "rslt"
    checkState (!result.isEmpty) "!result.empty()"
    let receipt ← getStringRapid d "rcpt"
    checkState (!receipt.isEmpty) "!receipt.empty()"
    construct n {w.message .oracleRsp with
      blockProposerIndex := 0, r := 0, value := 0, child := [result, receipt]}
  else throw "State check failed::false"

/-- `parseMessage`, not lite. The reader stops at the first zero. -/
def parseMessage (n : Receiver) (header : Bytes) : Except String NetworkMessage := do
  checkArgument (!header.isEmpty) "!_header.empty()"
  match n.rapidjson (cString header) with
  | none => throw "Could not parse message"
  | some d =>
    let w ← (parseFields d).mapError fun _ => "Could not parse message"
    (createMessage n d w).mapError fun _ =>
      "Could not create message of type:" ++ bytesText w.type

end SkaleConsensus.Network
