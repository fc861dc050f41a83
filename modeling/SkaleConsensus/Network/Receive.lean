import SkaleConsensus.Network.Message

/-! Who a received message counts for.

`receiveMessage` parses a message, verifies its session signature in the name of
the node id it carries, and puts it into an envelope under the schain index it
carries. Nothing compares the two. -/
namespace SkaleConsensus.Network
open Library Crypto

structure NetworkMessageEnvelope where
  message : NetworkMessage
  srcSchainIndex : SchainIndex
deriving DecidableEq, Repr

/-- What `verifyNetworkMsg` has verified. -/
def NetworkMessage.sessionCall (cm : CryptoManager) (timeStamp : ℕ) (m : NetworkMessage) :
    SessionCall where
  hash := m.calculateHash cm
  sig := m.ecdsaSig
  publicKey := m.publicKey
  pkSig := m.pkSig
  blockID := m.blockID
  nodeId := (m.srcNodeID, noNodeID)
  timeStamp := timeStamp

/-- `verify`; the time stamp is the last committed block's. -/
def NetworkMessage.verify (cm : CryptoManager) (timeStamp : ℕ) (m : NetworkMessage) :
    EStateM String SessionCache Unit :=
  (verifySessionSigAndKey cm (m.sessionCall cm timeStamp)).adaptExcept fun _ => "verify"

/-- `receiveMessage` on the bytes it read. -/
def receiveMessage (n : Receiver) (timeStamp : ℕ) (bytes : Bytes) :
    EStateM String SessionCache NetworkMessageEnvelope :=
  match parseMessage n bytes with
  | .error e => throw e
  | .ok m => do
    m.verify n.cm timeStamp
    match n.cm.nodeInfosByIndex m.srcSchainIndex with
    | none => throw "NetworkMessage from unknown sender schain index"
    | some realSender =>
      checkState (decide (0 < m.blockID)) "blockID > 0"
      return ⟨m, realSender.schainIndex⟩

section Accepted
variable {n : Receiver} {timeStamp : ℕ} {bytes : Bytes} {c c' : SessionCache}

theorem receiveMessage_run_eq_ok {e : NetworkMessageEnvelope}
    (h : (receiveMessage n timeStamp bytes).run c = .ok e c') :
    parseMessage n bytes = .ok e.message ∧
      (verifySessionSigAndKey n.cm (e.message.sessionCall n.cm timeStamp)).run c = .ok () c' ∧
      ∃ info, n.cm.nodeInfosByIndex e.message.srcSchainIndex = some info ∧
        e.srcSchainIndex = e.message.srcSchainIndex := by
  unfold receiveMessage at h
  cases hparse : parseMessage n bytes with
  | error err =>
    rw [hparse] at h
    cases h
  | ok m =>
    rw [hparse] at h
    obtain ⟨⟨⟩, mid, hverify, hrest⟩ := run_bind_eq_ok.mp h
    cases hinfo : n.cm.nodeInfosByIndex m.srcSchainIndex with
    | none =>
      rw [hinfo] at hrest
      cases hrest
    | some info =>
      rw [hinfo] at hrest
      obtain ⟨⟨⟩, _, hcheck, hreturn⟩ := run_bind_eq_ok.mp hrest
      obtain ⟨-, rfl⟩ := checkState_run_eq_ok.mp hcheck
      cases hreturn
      refine ⟨rfl, run_adaptExcept_eq_ok.mp hverify, info, hinfo, ?_⟩
      exact n.cm.schainIndex_eq _ _ hinfo

end Accepted

/-! ### Authenticity -/

/-- No certificate verifies under the keys of two nodes. -/
def CertifierUnique (cm : CryptoManager) : Prop :=
  ∀ a x y, certifiedBy cm a x = true → certifiedBy cm a y = true → x = y

/-- The message of an envelope is signed with a session key that the node at the
envelope's schain index certified. -/
def SenderAuthentic (n : Receiver) (timeStamp : ℕ) (e : NetworkMessageEnvelope) : Prop :=
  n.cm.verifyEdDSA e.message.publicKey (e.message.calculateHash n.cm) e.message.ecdsaSig = true ∧
    ∃ info ∈ n.cm.nodeInfosByIndex e.srcSchainIndex,
      certifiedBy n.cm (e.message.sessionCall n.cm timeStamp) info.nodeID = true

/-- The schain index of a message is that of the node id it is verified for. Where the
certificate is found in the cache it is verified for no node, and has to be good for the
node at the schain index. -/
def SenderListed (n : Receiver) (timeStamp : ℕ) (c : SessionCache) (m : NetworkMessage) : Prop :=
  ∃ info ∈ n.cm.nodeInfosByIndex m.srcSchainIndex,
    if (c.get? m.pkSig).isSome then
      certifiedBy n.cm (m.sessionCall n.cm timeStamp) info.nodeID = true
    else info.nodeID = m.srcNodeID

instance (n : Receiver) (timeStamp : ℕ) (e : NetworkMessageEnvelope) :
    Decidable (SenderAuthentic n timeStamp e) :=
  inferInstanceAs (Decidable (_ ∧ ∃ info ∈ n.cm.nodeInfosByIndex e.srcSchainIndex, _))

instance (n : Receiver) (timeStamp : ℕ) (c : SessionCache) (m : NetworkMessage) :
    Decidable (SenderListed n timeStamp c m) :=
  inferInstanceAs (Decidable (∃ info ∈ n.cm.nodeInfosByIndex m.srcSchainIndex, _))

section Authentic
variable {n : Receiver} {timeStamp : ℕ} {bytes : Bytes} {c c' : SessionCache}
  {e : NetworkMessageEnvelope} {m : NetworkMessage}

theorem certifiedBy_of_keyAccepted {cm : CryptoManager} (hnew : c.get? m.pkSig = none)
    (h : keyAccepted cm (m.sessionCall cm timeStamp) c = true) :
    certifiedBy cm (m.sessionCall cm timeStamp) m.srcNodeID = true := by
  unfold keyAccepted at h
  have hnew' : c.get? (m.sessionCall cm timeStamp).pkSig = none := hnew
  rw [hnew'] at h
  simpa [certified, NetworkMessage.sessionCall] using h

/-- An accepted message is authentic exactly when its schain index is listed for the
node that was verified. -/
theorem senderAuthentic_iff_senderListed (hsgx : n.cm.isSGXEnabled = true)
    (hunique : CertifierUnique n.cm) (h : (receiveMessage n timeStamp bytes).run c = .ok e c') :
    SenderAuthentic n timeStamp e ↔ SenderListed n timeStamp c e.message := by
  obtain ⟨-, hverify, info, hinfo, hindex⟩ := receiveMessage_run_eq_ok h
  obtain ⟨-, hkey, hed, -⟩ := (verifySessionSigAndKey_run_eq_ok hsgx).mp hverify
  unfold SenderAuthentic SenderListed
  rw [hindex, hinfo]
  simp only [Option.mem_some_iff, exists_eq_left']
  cases hc : c.get? e.message.pkSig with
  | some pk => exact ⟨fun hauth => hauth.2, fun hlisted => ⟨hed, hlisted⟩⟩
  | none =>
    have hcert := certifiedBy_of_keyAccepted hc hkey
    constructor
    · intro hauth
      exact hunique _ _ _ hauth.2 hcert
    · intro hlisted
      have hsame : info.nodeID = e.message.srcNodeID := hlisted
      rw [hsame]
      exact ⟨hed, hcert⟩

/-- A certificate is made by one node, for one key and one block. -/
def CertificateUnique (cm : CryptoManager) : Prop :=
  ∀ a b x y, a.pkSig = b.pkSig → certifiedBy cm a x = true → certifiedBy cm b y = true →
    x = y ∧ a.publicKey = b.publicKey ∧ a.blockID = b.blockID

theorem certifiedBy_sessionCall {cm : CryptoManager} {a : SessionCall} (hpkSig : a.pkSig = m.pkSig)
    (hkey : a.publicKey = m.publicKey) (hblock : a.blockID = m.blockID) :
    certifiedBy cm {a with timeStamp := timeStamp} =
      certifiedBy cm (m.sessionCall cm timeStamp) := by
  unfold certifiedBy NetworkMessage.sessionCall
  rw [hpkSig, hkey, hblock]

/-- For a certificate that is found in the cache, the condition is on the call that put it there:
it was for the block of the message, and the node at the schain index certified it. -/
theorem senderListed_iff_of_cached (hsgx : n.cm.isSGXEnabled = true)
    (hunique : CertificateUnique n.cm) {calls : List SessionCall}
    (hrun : (sessions n.cm).run calls = some c) (hpk : c.get? m.pkSig = some m.publicKey) :
    SenderListed n timeStamp c m ↔ ∃ info ∈ n.cm.nodeInfosByIndex m.srcSchainIndex,
      ∃ a ∈ calls, a.pkSig = m.pkSig ∧ a.blockID = m.blockID ∧
        certifiedBy n.cm {a with timeStamp := timeStamp} info.nodeID = true := by
  obtain ⟨a, hmem, hpkSig, hkey, hcert⟩ := certified_of_get? hsgx hrun hpk
  obtain ⟨x, hx⟩ : ∃ x, certifiedBy n.cm a x = true := by
    rcases (Bool.or_eq_true _ _).mp hcert with hfirst | hsecond
    · exact ⟨_, hfirst⟩
    · exact ⟨_, ((Bool.and_eq_true _ _).mp hsecond).2⟩
  unfold SenderListed
  rw [hpk]
  refine exists_congr fun info => and_congr_right fun _ => ⟨fun hlisted => ?_, ?_⟩
  · have hblock := (hunique a _ _ _ hpkSig.symm hx hlisted).2.2
    refine ⟨a, hmem, hpkSig.symm, hblock, ?_⟩
    rw [certifiedBy_sessionCall hpkSig.symm hkey.symm hblock]
    exact hlisted
  · rintro ⟨b, -, hbSig, hblock, hlisted⟩
    have hsame :=
      (hunique {b with timeStamp := timeStamp} a _ _ (hbSig.trans hpkSig) hlisted hx).2.1
    rw [certifiedBy_sessionCall hbSig (hsame.trans hkey.symm) hblock] at hlisted
    exact hlisted

end Authentic

def writeMember : String × JsonValue → Bytes
  | (name, .uint64 n) => textBytes ("\"" ++ name ++ "\":" ++ toString n.toNat)
  | (name, .string text) => textBytes ("\"" ++ name ++ "\":\"") ++ text ++ textBytes "\""
  | (name, .other) => textBytes ("\"" ++ name ++ "\":null")

def writeObject (d : JsonObject) : Bytes :=
  textBytes "\x7b" ++ List.intercalate (textBytes ",") (d.map writeMember) ++ textBytes "\x7d"

/-- A vote of node 12, whose schain index is 2, that gives the schain index `index`. -/
def voteAs (index : SchainIndex) : NetworkMessage :=
  let m : NetworkMessage :=
    {NetworkMessage.first with
      srcNodeID := 12, srcSchainIndex := index, publicKey := sessionKey
      pkSig := letter 12 ++ certificateHash 1}
  {m with ecdsaSig := sessionKey ++ toHex m.hashInput}

/-- A node of a chain in which node 12 signed both votes, with a reader for them. -/
def voteReceiver : Receiver where
  schainID := 1
  cm := fourSigners [(letter 12, certificateHash 1)]
    [(sessionKey, toHex (voteAs 1).hashInput), (sessionKey, toHex (voteAs 2).hashInput)]
  rapidjson text := [(voteAs 1).members, (voteAs 2).members].find? fun d => writeObject d == text
  blsSigShare _ _ := true
  parseSpec _ := true

theorem head_of_certifiedBy {certificates signatures : List (Bytes × Hash)} {a : SessionCall}
    {x : NodeID} (h : certifiedBy (fourSigners certificates signatures) a x = true) :
    x ∈ [11, 12, 13, 14] ∧ a.pkSig.head? = (letter x).head? := by
  unfold certifiedBy CryptoManager.verifyECDSASig at h
  rw [show (fourSigners certificates signatures).isSGXEnabled = true from rfl, if_pos rfl] at h
  simp only [Bool.and_eq_true, Bool.not_eq_true', List.isEmpty_eq_false_iff] at h
  obtain ⟨-, hkey, hsig⟩ := h
  obtain ⟨hx, hletter⟩ := key_fourSigners hkey
  rw [hletter] at hsig
  obtain ⟨-, hpkSig⟩ := (Bool.and_eq_true _ _).mp hsig
  refine ⟨hx, ?_⟩
  rw [eq_of_beq hpkSig]
  rfl

theorem certifierUnique_fourSigners (certificates signatures : List (Bytes × Hash)) :
    CertifierUnique (fourSigners certificates signatures) := by
  intro a x y hx hy
  obtain ⟨hxmem, hxhead⟩ := head_of_certifiedBy hx
  obtain ⟨hymem, hyhead⟩ := head_of_certifiedBy hy
  have hletter : letter x = letter y :=
    congrArg (fun b => [b]) (Option.some.inj (hxhead.symm.trans hyhead))
  exact letter_injective x hxmem y hymem hletter

theorem senderAuthentic_voteAs : SenderAuthentic voteReceiver currentTimeStamp ⟨voteAs 2, 2⟩ :=
  (senderAuthentic_iff_senderListed rfl (certifierUnique_fourSigners _ _)
    (run_of_result? (s := .empty) (x := receiveMessage voteReceiver currentTimeStamp
      (writeObject (voteAs 2).members)) (by decide +kernel))).mpr (by decide +kernel)

/-- Node 12 votes for node 11: the bytes become an envelope from schain index 1. -/
theorem voteReceiver_not_authentic :
    result? (receiveMessage voteReceiver currentTimeStamp (writeObject (voteAs 1).members)) .empty =
        some ⟨voteAs 1, 1⟩ ∧
      ¬ SenderAuthentic voteReceiver currentTimeStamp ⟨voteAs 1, 1⟩ := by
  decide +kernel

end SkaleConsensus.Network
