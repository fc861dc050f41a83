import SkaleConsensus.Oracle.Result

/-! Messages that a node builds.

A node builds a message of one of five types, signs it and writes it as a JSON object. Its own
shares and signatures are digits and letters; the texts of the oracle messages come from a user
and from a web server.

What the hasher is fed for a message can be taken apart again: the hash determines everything
but the time and the signature (`sameContent_of_hashInput`). -/
namespace SkaleConsensus.Network
open Library Crypto Oracle

def MAX_CONSENSUS_MESSAGE_LEN : ℕ := 4096

/-! ### Building -/

/-- What a node that builds messages knows, and whom it asks. -/
structure Sender where
  schainID : UInt64
  nodeID : UInt64
  schainIndex : UInt64
  cm : CryptoManager
  lib : SpecLibraries
  endpoint : EndpointJson
  oracleSigner : OracleSigner
  /-- The SGX server; `none` where the call throws. -/
  blsSignMessageHash : Hash → Option Bytes
  /-- The signature, the session key and its certificate. -/
  signSessionECDSA : Hash → (blockID : ℕ) → Option (Bytes × Bytes × Bytes)

/-- What a message is built from. -/
inductive Draft where
  | bvBroadcast (blockID blockProposerIndex r : UInt64) (value : Value)
  | auxBroadcast (blockID blockProposerIndex r : UInt64) (value : Value)
  | blockSignBroadcast (blockID blockProposerIndex : UInt64)
  | oracleReqBroadcast (blockID : UInt64) (requestSpec : Bytes)
  /-- The request that is answered, the status of the call of the endpoint and its response. -/
  | oracleRsp (blockID : UInt64) (requestSpec : Bytes) (status : ℤ) (response : Bytes)

def OracleThrow.what : OracleThrow → String
  | .oracle message _ => bytesText message
  | .invalidState message => message

/-- The result that is sent; for one that is too large its error is sent. -/
def doEndpointRequestResponse (j : EndpointJson) (signer : OracleSigner) (spec : OracleRequestSpec)
    (status : ℤ) (response : Bytes) : Except OracleThrow OracleResult :=
  match makeResult j signer spec status response with
  | .error (.oracle _ error) => makeResult j signer spec error []
  | made => made

/-- What `getCommonCoinHash` feeds the hasher. -/
def NetworkMessage.commonCoinInput (m : NetworkMessage) : Bytes :=
  commonCoinHashInput m.blockProposerIndex m.r m.blockID m.schainID m.msgType.toNat

/-- What `getConsensusHash` feeds the hasher. -/
def NetworkMessage.consensusInput (m : NetworkMessage) : Bytes :=
  consensusHashInput m.blockProposerIndex m.blockID m.schainID

namespace Sender
variable (s : Sender)

def signSigShare (hash : Hash) (forceMockup : Bool) : Except String Bytes :=
  if s.cm.isSGXEnabled && !forceMockup then
    match s.blsSignMessageHash hash with
    | some sigShare => return sigShare
    | none => throw "signSigShare"
  else return toHex hash

def getCommonCoinHash (m : NetworkMessage) : Hash := s.cm.blake3 m.commonCoinInput

def getConsensusHash (m : NetworkMessage) : Hash := s.cm.blake3 m.consensusInput

/-- The constructor of `NetworkMessage` for a message that is to be sent. -/
def message (msgID timeMs : UInt64) (msgType : MsgType) (blockID blockProposerIndex r : UInt64)
    (value : Value) : Except String NetworkMessage := do
  checkState (blockID.toNat != 0) "( uint64_t ) blockID != 0"
  return {
    msgType, schainID := s.schainID.toNat, blockID := blockID.toNat,
    blockProposerIndex := blockProposerIndex.toNat, msgID := msgID.toNat,
    srcNodeID := s.nodeID.toNat, srcSchainIndex := s.schainIndex.toNat, r := r.toNat, value,
    timeMs := timeMs.toNat, sigShareString := [], ecdsaSig := [], publicKey := [], pkSig := [],
    child := [] }

/-- The constructors of the five types. -/
def construct (msgID timeMs : UInt64) : Draft → Except String NetworkMessage
  | .bvBroadcast blockID blockProposerIndex r value =>
    s.message msgID timeMs .bvBroadcast blockID blockProposerIndex r value
  | .auxBroadcast blockID blockProposerIndex r value => do
    let m ← s.message msgID timeMs .auxBroadcast blockID blockProposerIndex r value
    if COMMON_COIN_ROUND ≤ m.r then
      let sigShare ← s.signSigShare (s.getCommonCoinHash m) (decide (m.r < COMMON_COIN_ROUND))
      return {m with sigShareString := sigShare}
    else return m
  | .blockSignBroadcast blockID blockProposerIndex => do
    let m ← s.message msgID timeMs .blockSignBroadcast blockID blockProposerIndex 4 0
    let sigShare ← s.signSigShare (s.getConsensusHash m) false
    return {m with sigShareString := sigShare}
  | .oracleReqBroadcast blockID text => do
    let m ← s.message msgID timeMs .oracleReqBroadcast blockID 0 0 0
    let requestSpec := text.filter fun b => !isSpace b
    let _ ← (parseSpec s.lib requestSpec).mapError OracleThrow.what
    return {m with child := [requestSpec]}
  | .oracleRsp blockID text status response => do
    let spec ← (parseSpec s.lib text).mapError OracleThrow.what
    let result ← (doEndpointRequestResponse s.endpoint s.oracleSigner spec status
      response).mapError OracleThrow.what
    let m ← s.message msgID timeMs .oracleRsp blockID 0 0 0
    return {m with child := [result.oracleResult, spec.receipt]}

def signSession (hash : Hash) (blockID : ℕ) : Except String (Bytes × Bytes × Bytes) :=
  if s.cm.isSGXEnabled then
    match s.signSessionECDSA hash blockID with
    | some (signature, publicKey, pkSig) => do
      checkState (!signature.isEmpty) "signature != \"\""
      checkState (!publicKey.isEmpty) "pubKey != \"\""
      checkState (!pkSig.isEmpty) "pkSig != \"\""
      return (signature, publicKey, pkSig)
    | none => throw "signSession"
  else return (toHex hash, [], [])

def sign (m : NetworkMessage) : Except String NetworkMessage := do
  let (ecdsaSig, publicKey, pkSig) ← s.signSession (m.calculateHash s.cm) m.blockID
  checkState (!ecdsaSig.isEmpty) "!ecdsaSig.empty()"
  return {m with ecdsaSig, publicKey, pkSig}

/-- A message is signed before it is sent. -/
def build (msgID timeMs : UInt64) (draft : Draft) : Except String NetworkMessage := do
  s.sign (← s.construct msgID timeMs draft)

end Sender

/-- `serializeToString`. The text is taken from the writer as a `char*`. -/
def NetworkMessage.serializeToString (write : JsonObject → Bytes) (m : NetworkMessage) :
    Except String Bytes := do
  checkState (!m.ecdsaSig.isEmpty) "!ecdsaSig.empty()"
  let text := cString (write m.members)
  checkState (decide (16 < text.length)) "s.size() > 16"
  return text

/-! ### What the hash binds -/

/-- The texts that the type adds. -/
def MsgType.childCount : MsgType → ℕ
  | .oracleReqBroadcast => 1
  | .oracleRsp => 2
  | _ => 0

/-- The numbers have 64 bits, and the lengths of the texts 32. -/
structure NetworkMessage.Fits (m : NetworkMessage) : Prop where
  schainID : m.schainID < 2 ^ 64
  blockID : m.blockID < 2 ^ 64
  blockProposerIndex : m.blockProposerIndex < 2 ^ 64
  msgID : m.msgID < 2 ^ 64
  srcNodeID : m.srcNodeID < 2 ^ 64
  srcSchainIndex : m.srcSchainIndex < 2 ^ 64
  r : m.r < 2 ^ 64
  timeMs : m.timeMs < 2 ^ 64
  sigShareString : m.sigShareString.length < 2 ^ 32
  child : ∀ text ∈ m.child, text.length < 2 ^ 32
  childCount : m.child.length = m.msgType.childCount

/-- Two messages agree in everything but the time and the signature with its key. -/
def NetworkMessage.SameContent (a b : NetworkMessage) : Prop :=
  b = {a with
    timeMs := b.timeMs, ecdsaSig := b.ecdsaSig, publicKey := b.publicKey, pkSig := b.pkSig}

theorem eq_of_lengthPrefixed_append {a b l l' : Bytes} (ha : a.length < 2 ^ 32)
    (hb : b.length < 2 ^ 32) (h : lengthPrefixed a ++ l = lengthPrefixed b ++ l') :
    a = b ∧ l = l' := by
  unfold lengthPrefixed at h
  rw [Nat.mod_eq_of_lt ha, Nat.mod_eq_of_lt hb, List.take_length, List.take_length,
    List.append_assoc, List.append_assoc] at h
  obtain ⟨hlength, hrest⟩ := eq_of_leBytes_append ha hb h
  exact List.append_inj hrest hlength

theorem eq_of_flatMap_lengthPrefixed {a b : List Bytes} (hlength : a.length = b.length)
    (ha : ∀ text ∈ a, text.length < 2 ^ 32) (hb : ∀ text ∈ b, text.length < 2 ^ 32)
    (h : a.flatMap lengthPrefixed = b.flatMap lengthPrefixed) : a = b := by
  induction a generalizing b with
  | nil => exact (List.eq_nil_of_length_eq_zero hlength.symm).symm
  | cons x a ih =>
    cases b with
    | nil => cases hlength
    | cons y b =>
      rw [List.flatMap_cons, List.flatMap_cons] at h
      obtain ⟨hxy, hrest⟩ := eq_of_lengthPrefixed_append (ha x List.mem_cons_self)
        (hb y List.mem_cons_self) h
      rw [hxy, ih (Nat.succ.inj hlength) (fun t ht => ha t (List.mem_cons_of_mem x ht))
        (fun t ht => hb t (List.mem_cons_of_mem y ht)) hrest]

theorem typeString_injective {a b : MsgType}
    (h : textBytes a.typeString = textBytes b.typeString) : a = b := by
  cases a <;> cases b <;> first | rfl | exact absurd h (by decide)

theorem length_typeString (t : MsgType) : (textBytes t.typeString).length < 2 ^ 32 := by
  cases t <;> decide

/-- Messages that feed the hasher the same have the same content. -/
theorem sameContent_of_hashInput {a b : NetworkMessage} (ha : a.Fits) (hb : b.Fits)
    (h : a.hashInput = b.hashInput) : a.SameContent b := by
  unfold NetworkMessage.hashInput at h
  simp only [List.append_assoc] at h
  obtain ⟨h₁, h⟩ := eq_of_leBytes_append ha.schainID hb.schainID h
  obtain ⟨h₂, h⟩ := eq_of_leBytes_append ha.blockID hb.blockID h
  obtain ⟨h₃, h⟩ := eq_of_leBytes_append ha.blockProposerIndex hb.blockProposerIndex h
  obtain ⟨h₄, h⟩ := eq_of_leBytes_append ha.msgID hb.msgID h
  obtain ⟨h₅, h⟩ := eq_of_leBytes_append ha.srcNodeID hb.srcNodeID h
  obtain ⟨h₆, h⟩ := eq_of_leBytes_append ha.srcSchainIndex hb.srcSchainIndex h
  obtain ⟨h₇, h⟩ := eq_of_leBytes_append ha.r hb.r h
  obtain ⟨h₈, h⟩ := List.cons.inj h
  obtain ⟨htype, h⟩ := eq_of_lengthPrefixed_append (length_typeString _) (length_typeString _) h
  obtain ⟨hshare, h⟩ := eq_of_lengthPrefixed_append ha.sigShareString hb.sigShareString h
  have h₉ := typeString_injective htype
  -- the type says how many texts follow
  have hchild := eq_of_flatMap_lengthPrefixed
    (by rw [ha.childCount, hb.childCount, h₉]) ha.child hb.child h
  cases a
  cases b
  simp_all only [NetworkMessage.SameContent]

end SkaleConsensus.Network
