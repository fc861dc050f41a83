import SkaleConsensus.Network.Parsed
import SkaleConsensus.Network.Receive
import SkaleConsensus.Oracle.RoundTrip

/-! Messages from the node that builds them to the node that reads them.

The reader takes every text as a `char*`: a zero ends it, although the writer wrote all of it and
the node signed all of it. In the texts that a node makes itself there are no zeros.

`roundTrips_and_binds_iff` says which messages are read as they were built, and that two messages
with one hash have one content. -/
namespace SkaleConsensus.Network
open Library Crypto Oracle NetworkMessage

/-! ### What a correct node builds -/

/-- A node of the chain of the receiver, and libraries that do what they are for. -/
structure Sender.Correct (s : Sender) (n : Receiver) : Prop where
  schainID : n.schainID = s.schainID.toNat
  isSGXEnabled : n.cm.isSGXEnabled = s.cm.isSGXEnabled
  blake3 : n.cm.blake3 = s.cm.blake3
  schainIndex : 0 < s.schainIndex.toNat
  parseSpec : ∀ text, n.parseSpec text = (parseSpec s.lib text).isOk
  digest : ∀ input, (s.cm.blake3 input).length = 32
  keccak256 : ∀ text, (s.lib.keccak256 text).length = 32
  sigShare : ∀ hash sigShare, s.blsSignMessageHash hash = some sigShare →
    sigShare ≠ [] ∧ 0 ∉ sigShare ∧ sigShare.length < 2 ^ 32 ∧
      n.blsSigShare sigShare s.schainIndex.toNat = true
  session : ∀ hash blockID signature publicKey pkSig,
    s.signSessionECDSA hash blockID = some (signature, publicKey, pkSig) →
      0 ∉ signature ∧ 0 ∉ publicKey ∧ 0 ∉ pkSig

/-- What is particular to a message of a type that was built. -/
def BuiltAs (n : Receiver) (m : NetworkMessage) : MsgType → Prop
  | .bvBroadcast => m.sigShareString = [] ∧ m.child = []
  | .auxBroadcast => (COMMON_COIN_ROUND ≤ m.r → m.sigShareString ≠ []) ∧ m.child = []
  | .blockSignBroadcast => m.r = 4 ∧ m.value = 0 ∧ m.sigShareString ≠ [] ∧ m.child = []
  | .oracleReqBroadcast => m.blockProposerIndex = 0 ∧ m.r = 0 ∧ m.value = 0 ∧
      m.sigShareString = [] ∧ ∃ spec members, m.child = [spec] ∧ withoutBlanks spec = spec ∧
        n.parseSpec spec = true ∧ parseDocument spec = some (.object members)
  | .oracleRsp => m.blockProposerIndex = 0 ∧ m.r = 0 ∧ m.value = 0 ∧ m.sigShareString = [] ∧
      ∃ result receipt, m.child = [result, receipt] ∧ result ≠ [] ∧ receipt ≠ []

/-- What a correct node sees to. -/
structure WellBuilt (n : Receiver) (m : NetworkMessage) : Prop where
  schainID : n.schainID = m.schainID
  fits : m.Fits
  clean : m.Clean
  constructible : Constructible n m
  builtAs : BuiltAs n m m.msgType

section Build
variable {n : Receiver} {s : Sender} {msgID timeMs : UInt64} {draft : Draft} {m m' : NetworkMessage}
  {spec : OracleRequestSpec} {signer : OracleSigner} {r : OracleResult}

theorem signSigShare_eq_ok (hcorrect : s.Correct n) {input sigShare : Bytes} {forceMockup : Bool}
    (h : s.signSigShare (s.cm.blake3 input) forceMockup = .ok sigShare) :
    sigShare ≠ [] ∧ 0 ∉ sigShare ∧ sigShare.length < 2 ^ 32 ∧
      (n.cm.isSGXEnabled = true → forceMockup = false →
        n.blsSigShare sigShare s.schainIndex.toNat = true) := by
  unfold Sender.signSigShare at h
  split_ifs at h with hsgx
  · split at h
    · next hsign =>
      cases h
      obtain ⟨hne, hzero, hlength, haccepted⟩ := hcorrect.sigShare _ _ hsign
      exact ⟨hne, hzero, hlength, fun _ _ => haccepted⟩
    · cases h
  · cases h
    have hlength : (toHex (s.cm.blake3 input)).length = 64 := by
      rw [length_toHex, hcorrect.digest]
    refine ⟨?_, zero_not_mem_toHex _, by omega, fun hon hforce => absurd ?_ hsgx⟩
    · intro hnil
      rw [hnil] at hlength
      cases hlength
    · rw [← hcorrect.isSGXEnabled, hon, hforce]
      rfl

structure Added (n : Receiver) (m : NetworkMessage) : Prop where
  zero : 0 ∉ m.sigShareString
  sigShare : m.sigShareString.length < 2 ^ 32
  accepted : n.cm.isSGXEnabled = true → m.sigShareString ≠ [] → COMMON_COIN_ROUND ≤ m.r →
    n.blsSigShare m.sigShareString m.srcSchainIndex = true
  child : ∀ text ∈ m.child, text.length < 2 ^ 32
  childCount : m.child.length = m.msgType.childCount
  builtAs : BuiltAs n m m.msgType

theorem length_oracleResult {error : ℤ} {results : List (Option Bytes)}
    (h : encodeAndSignResultAsJson signer spec error results = .ok r) :
    r.oracleResult ≠ [] ∧ r.oracleResult.length ≤ MAX_ORACLE_RESULT_LEN := by
  obtain ⟨text, h⟩ := after_bind h
  dsimp only at h
  split at h
  · cases h
  · obtain ⟨_, hlength, h⟩ := bind_eq_ok.mp h
    cases h
    refine ⟨?_, of_decide_eq_true (oracleCheck_eq_ok.mp hlength)⟩
    simp [appendSignature, textBytes]

theorem length_makeResult {j : EndpointJson} {status : ℤ} {response : Bytes}
    (h : makeResult j signer spec status response = .ok r) :
    r.oracleResult ≠ [] ∧ r.oracleResult.length ≤ MAX_ORACLE_RESULT_LEN := by
  obtain ⟨⟨error, results⟩, h⟩ := after_bind h
  split_ifs at h
  · cases h
  · exact length_oracleResult h

theorem length_doEndpointRequestResponse {j : EndpointJson} {status : ℤ} {response : Bytes}
    (h : doEndpointRequestResponse j signer spec status response = .ok r) :
    r.oracleResult ≠ [] ∧ r.oracleResult.length ≤ MAX_ORACLE_RESULT_LEN := by
  unfold doEndpointRequestResponse at h
  split at h
  · exact length_makeResult h
  · exact length_makeResult h

structure Started (s : Sender) (timeMs : UInt64) (m : NetworkMessage) : Prop where
  schainID : m.schainID = s.schainID.toNat
  srcNodeID : m.srcNodeID = s.nodeID.toNat
  srcSchainIndex : m.srcSchainIndex = s.schainIndex.toNat
  timeMs : m.timeMs = timeMs.toNat
  blockID : m.blockID ≠ 0
  small : m.blockID < 2 ^ 64 ∧ m.blockProposerIndex < 2 ^ 64 ∧ m.msgID < 2 ^ 64 ∧ m.r < 2 ^ 64

theorem message_eq_ok {msgType : MsgType} {blockID blockProposerIndex r : UInt64} {value : Value}
    (h : s.message msgID timeMs msgType blockID blockProposerIndex r value = .ok m) :
    Started s timeMs m ∧ m.msgType = msgType ∧ m.blockProposerIndex = blockProposerIndex.toNat ∧
      m.r = r.toNat ∧ m.value = value ∧ m.sigShareString = [] ∧ m.child = [] := by
  obtain ⟨hblock, h⟩ := checkState_bind_eq_ok.mp h
  cases h
  refine ⟨⟨rfl, rfl, rfl, rfl, ?_, ?_⟩, rfl, rfl, rfl, rfl, rfl, rfl⟩
  · simpa using hblock
  · exact ⟨blockID.toNat_lt, blockProposerIndex.toNat_lt, msgID.toNat_lt, r.toNat_lt⟩

theorem Started.completed (h : Started s timeMs m) (sigShare : Bytes) (child : List Bytes) :
    Started s timeMs {m with sigShareString := sigShare, child := child} :=
  ⟨h.schainID, h.srcNodeID, h.srcSchainIndex, h.timeMs, h.blockID, h.small⟩

/-- A message without a share. -/
theorem added_of_unsigned (hshare : m.sigShareString = [])
    (hchild : ∀ text ∈ m.child, text.length < 2 ^ 32)
    (hcount : m.child.length = m.msgType.childCount) (hkind : BuiltAs n m m.msgType) :
    Added n m := by
  constructor
  · simp [hshare]
  · simp [hshare]
  · simp [hshare]
  · exact hchild
  · exact hcount
  · exact hkind

theorem added_of_signed (hcorrect : s.Correct n) {input sigShare : Bytes} {forceMockup : Bool}
    (hsign : s.signSigShare (s.cm.blake3 input) forceMockup = .ok sigShare)
    (hindex : m.srcSchainIndex = s.schainIndex.toNat)
    (hforce : COMMON_COIN_ROUND ≤ m.r → forceMockup = false)
    (hchild : m.child = []) (hcount : m.msgType.childCount = 0)
    (hkind : sigShare ≠ [] → BuiltAs n {m with sigShareString := sigShare} m.msgType) :
    Added n {m with sigShareString := sigShare} := by
  obtain ⟨hne, hzero, hlength, haccepted⟩ := signSigShare_eq_ok hcorrect hsign
  constructor
  · exact hzero
  · exact hlength
  · intro hsgx _ hround
    show n.blsSigShare sigShare m.srcSchainIndex = true
    rw [hindex]
    exact haccepted hsgx (hforce hround)
  · simp [hchild]
  · rw [hcount]
    exact List.length_eq_zero_iff.mpr hchild
  · exact hkind hne

theorem added_of_construct (hcorrect : s.Correct n) (h : s.construct msgID timeMs draft = .ok m) :
    Started s timeMs m ∧ Added n m := by
  cases draft with
  | bvBroadcast blockID blockProposerIndex r value =>
    obtain ⟨hstarted, htype, -, -, -, hshare, hchild⟩ := message_eq_ok h
    refine ⟨hstarted, added_of_unsigned hshare (by simp [hchild]) ?_ ?_⟩
    · rw [hchild, htype]
      rfl
    · rw [htype]
      exact ⟨hshare, hchild⟩
  | auxBroadcast blockID blockProposerIndex r value =>
    obtain ⟨m₀, hm₀, h⟩ := bind_eq_ok.mp h
    obtain ⟨hstarted, htype, -, -, -, hshare, hchild⟩ := message_eq_ok hm₀
    split_ifs at h with hround
    · obtain ⟨sigShare, hsign, h⟩ := bind_eq_ok.mp h
      cases h
      refine ⟨hstarted.completed _ _, added_of_signed hcorrect hsign hstarted.srcSchainIndex
        ?_ hchild (by rw [htype]; rfl) ?_⟩
      · exact fun hle => decide_eq_false (Nat.not_lt_of_le hle)
      · rw [htype]
        exact fun hne => ⟨fun _ => hne, hchild⟩
    · cases h
      refine ⟨hstarted, added_of_unsigned hshare (by simp [hchild]) ?_ ?_⟩
      · rw [hchild, htype]
        rfl
      · rw [htype]
        exact ⟨fun hle => absurd hle hround, hchild⟩
  | blockSignBroadcast blockID blockProposerIndex =>
    obtain ⟨m₀, hm₀, h⟩ := bind_eq_ok.mp h
    obtain ⟨hstarted, htype, -, hr, hvalue, hshare, hchild⟩ := message_eq_ok hm₀
    obtain ⟨sigShare, hsign, h⟩ := bind_eq_ok.mp h
    cases h
    refine ⟨hstarted.completed _ _, added_of_signed hcorrect hsign hstarted.srcSchainIndex
      (fun _ => rfl) hchild (by rw [htype]; rfl) ?_⟩
    rw [htype]
    exact fun hne => ⟨hr, hvalue, hne, hchild⟩
  | oracleReqBroadcast blockID text =>
    obtain ⟨m₀, hm₀, h⟩ := bind_eq_ok.mp h
    obtain ⟨hstarted, htype, hproposer, hr, hvalue, hshare, -⟩ := message_eq_ok hm₀
    obtain ⟨spec, hspec, h⟩ := bind_eq_ok.mp h
    cases h
    have hparse := mapError_eq_ok.mp hspec
    obtain ⟨-, members, hdoc, -⟩ := parseSpec_eq_ok hparse
    obtain ⟨hlength, -⟩ := receipt_of_parseSpec hparse
    have hlimit : MAX_ORACLE_SPEC_LEN < 2 ^ 32 := by decide
    refine ⟨hstarted.completed _ _, added_of_unsigned hshare ?_ (by rw [htype]; rfl) ?_⟩
    · simp only [List.mem_singleton, forall_eq]
      omega
    · show BuiltAs n _ m₀.msgType
      rw [htype]
      refine ⟨hproposer, hr, hvalue, hshare, _, members, rfl, ?_, ?_, hdoc⟩
      · simp [withoutBlanks]
      · rw [hcorrect.parseSpec, hparse]
        rfl
  | oracleRsp blockID text status response =>
    obtain ⟨spec, hspec, h⟩ := bind_eq_ok.mp h
    obtain ⟨result, hresult, h⟩ := bind_eq_ok.mp h
    obtain ⟨m₀, hm₀, h⟩ := bind_eq_ok.mp h
    obtain ⟨hstarted, htype, hproposer, hr, hvalue, hshare, -⟩ := message_eq_ok hm₀
    cases h
    obtain ⟨-, hreceipt⟩ := receipt_of_parseSpec (mapError_eq_ok.mp hspec)
    obtain ⟨hne, hlength⟩ := length_doEndpointRequestResponse (mapError_eq_ok.mp hresult)
    have hlimit : MAX_ORACLE_RESULT_LEN < 2 ^ 32 := by decide
    have hreceiptLength : spec.receipt.length = 64 := by
      rw [hreceipt, hashForOracle, length_toHex, hcorrect.keccak256]
    refine ⟨hstarted.completed _ _, added_of_unsigned hshare ?_ (by rw [htype]; rfl) ?_⟩
    · simp only [List.mem_cons, List.not_mem_nil, or_false, forall_eq_or_imp, forall_eq]
      omega
    · show BuiltAs n _ m₀.msgType
      rw [htype]
      refine ⟨hproposer, hr, hvalue, hshare, _, _, rfl, hne, ?_⟩
      intro hnil
      rw [hnil] at hreceiptLength
      cases hreceiptLength

theorem sign_eq_ok (hcorrect : s.Correct n) (h : s.sign m = .ok m') :
    ∃ ecdsaSig publicKey pkSig, ecdsaSig ≠ [] ∧ 0 ∉ ecdsaSig ∧ 0 ∉ publicKey ∧ 0 ∉ pkSig ∧
      m' = {m with ecdsaSig := ecdsaSig, publicKey := publicKey, pkSig := pkSig} := by
  obtain ⟨⟨ecdsaSig, publicKey, pkSig⟩, hsession, h⟩ := bind_eq_ok.mp h
  obtain ⟨hne, h⟩ := checkState_bind_eq_ok.mp h
  cases h
  refine ⟨ecdsaSig, publicKey, pkSig, by simpa using hne, ?_⟩
  unfold Sender.signSession at hsession
  split_ifs at hsession
  · split at hsession
    · next hsign =>
      have hsession := after_check (after_check (after_check hsession))
      cases hsession
      obtain ⟨hsig, hkey, hcert⟩ := hcorrect.session _ _ _ _ _ hsign
      exact ⟨hsig, hkey, hcert, rfl⟩
    · cases hsession
  · cases hsession
    exact ⟨zero_not_mem_toHex _, List.not_mem_nil, List.not_mem_nil, rfl⟩

/-- The type fixes the rest whatever the signature is. -/
theorem BuiltAs.signed {msgType : MsgType} {ecdsaSig publicKey pkSig : Bytes}
    (h : BuiltAs n m msgType) :
    BuiltAs n {m with ecdsaSig := ecdsaSig, publicKey := publicKey, pkSig := pkSig} msgType := by
  cases msgType <;> exact h

theorem wellBuilt_of_build (hcorrect : s.Correct n) (htime : timeMs ≠ 0)
    (h : s.build msgID timeMs draft = .ok m) : WellBuilt n m := by
  obtain ⟨m₀, hm₀, h⟩ := bind_eq_ok.mp h
  obtain ⟨hstarted, hadded⟩ := added_of_construct hcorrect hm₀
  obtain ⟨ecdsaSig, publicKey, pkSig, hne, hsig, hkey, hcert, rfl⟩ := sign_eq_ok hcorrect h
  obtain ⟨hblock, hproposer, hmsgID, hr⟩ := hstarted.small
  have hpos : 0 < timeMs.toNat := by
    have hnat : timeMs.toNat ≠ 0 := fun hzero => htime (UInt64.toNat_inj.mp hzero)
    omega
  refine ⟨hcorrect.schainID.trans hstarted.schainID.symm, ?_, ⟨hadded.zero, hsig, hkey, hcert⟩, ?_,
    hadded.builtAs.signed⟩
  · exact {
      schainID := hstarted.schainID ▸ s.schainID.toNat_lt
      blockID := hblock
      blockProposerIndex := hproposer
      msgID := hmsgID
      srcNodeID := hstarted.srcNodeID ▸ s.nodeID.toNat_lt
      srcSchainIndex := hstarted.srcSchainIndex ▸ s.schainIndex.toNat_lt
      r := hr
      timeMs := hstarted.timeMs ▸ timeMs.toNat_lt
      sigShareString := hadded.sigShare
      child := hadded.child
      childCount := hadded.childCount }
  · exact {
      blockID := hstarted.blockID
      srcSchainIndex := hstarted.srcSchainIndex ▸ hcorrect.schainIndex
      ecdsaSig := hne
      timeMs := hstarted.timeMs ▸ hpos
      sigShare := hadded.accepted }

end Build

/-! ### Round trips -/

section RoundTrip
variable {n : Receiver} {m : NetworkMessage}

theorem zero_not_mem_cString (text : Bytes) : 0 ∉ cString text := by
  intro h
  exact absurd (List.mem_takeWhile_imp h) (by decide)

theorem isBlank_of_withoutBlanks {spec : Bytes} (h : withoutBlanks spec = spec) :
    ∀ c ∈ spec, JsonTree.Reader.isBlank c = false := by
  intro c hc
  have hspace : isSpace c = false := by
    rw [← h] at hc
    simpa using (List.mem_filter.mp hc).2
  cases hblank : JsonTree.Reader.isBlank c with
  | false => rfl
  | true =>
    simp only [JsonTree.Reader.isBlank, Bool.or_eq_true, beq_iff_eq] at hblank
    rcases hblank with ((rfl | rfl) | rfl) | rfl <;> cases hspace

/-- What was built is made again of what is read, unless a zero cuts a text. -/
theorem createdAs_iff {msgType : MsgType} (h : BuiltAs n m msgType) (htype : m.msgType = msgType) :
    CreatedAs n m.members m.parsedFields m msgType ↔ ∀ text ∈ m.child, 0 ∉ text := by
  cases msgType with
  | bvBroadcast =>
    obtain ⟨hshare, hchild⟩ := h
    refine iff_of_true ?_ (by simp [hchild])
    cases m
    simp_all [CreatedAs, parsedFields, ParsedFields.message]
  | auxBroadcast =>
    obtain ⟨hshare, hchild⟩ := h
    refine iff_of_true ⟨?_, fun hround _ => hshare hround⟩ (by simp [hchild])
    cases m
    simp_all [parsedFields, ParsedFields.message]
  | blockSignBroadcast =>
    obtain ⟨hr, hvalue, hshare, hchild⟩ := h
    refine iff_of_true ⟨?_, hshare⟩ (by simp [hchild])
    cases m
    simp_all [parsedFields, ParsedFields.message]
  | oracleReqBroadcast =>
    obtain ⟨hproposer, hr, hvalue, hshare, spec, members, hchild, hblanks, hparse, hdoc⟩ := h
    have hspec := getStringRapid_spec htype hchild
    simp only [hchild, List.mem_singleton, forall_eq]
    constructor
    · rintro ⟨spec', hspec', -, -, -, hm⟩
      cases hspec.symm.trans hspec'
      have hsame : [spec] = [withoutBlanks (cString spec)] :=
        hchild.symm.trans (congrArg (·.child) hm)
      rw [List.singleton_inj.mp hsame]
      exact fun hzero => zero_not_mem_cString spec (List.mem_filter.mp hzero).1
    · intro hzero
      rw [cString_of_not_mem hzero] at hspec
      rw [parseDocument, cString_of_not_mem hzero] at hdoc
      obtain ⟨hfirst, hlast⟩ := JsonTree.braces_of_read (isBlank_of_withoutBlanks hblanks) hdoc
      refine ⟨spec, hspec, hfirst, hlast, hblanks.symm ▸ hparse, ?_⟩
      cases m
      simp_all [parsedFields, ParsedFields.message]
  | oracleRsp =>
    obtain ⟨hproposer, hr, hvalue, hshare, result, receipt, hchild, hne, hne'⟩ := h
    obtain ⟨hrslt, hrcpt⟩ := getStringRapid_rslt htype hchild
    simp only [hchild, List.mem_cons, List.not_mem_nil, or_false, forall_eq_or_imp, forall_eq]
    constructor
    · rintro ⟨result', receipt', hresult', -, hreceipt', -, hm⟩
      cases hrslt.symm.trans hresult'
      cases hrcpt.symm.trans hreceipt'
      have hsame : [result, receipt] = [cString result, cString receipt] :=
        hchild.symm.trans (congrArg (·.child) hm)
      obtain ⟨hresult, htail⟩ := List.cons.inj hsame
      rw [hresult, List.singleton_inj.mp htail]
      exact ⟨zero_not_mem_cString _, zero_not_mem_cString _⟩
    · rintro ⟨hzero, hzero'⟩
      rw [cString_of_not_mem hzero] at hrslt
      rw [cString_of_not_mem hzero'] at hrcpt
      refine ⟨result, receipt, hrslt, hne, hrcpt, hne', ?_⟩
      cases m
      simp_all [parsedFields, ParsedFields.message]

/-- The JSON library reads the members that it wrote. -/
def ReadsBack (n : Receiver) (write : JsonObject → Bytes) (d : JsonObject) : Prop :=
  16 < (cString (write d)).length ∧ n.rapidjson (cString (write d)) = some d

/-- Its strings are no longer than the text they were read from. -/
def StringsFit (n : Receiver) : Prop :=
  ∀ text d, n.rapidjson text = some d → ∀ name value, d.lookup name = some (.string value) →
    value.length ≤ text.length

/-- A message is read by another node as it was built. -/
def NetworkMessage.RoundTrips (s : Sender) (n : Receiver) (write : JsonObject → Bytes)
    (m : NetworkMessage) : Prop :=
  ∃ text m', m.serializeToString write = .ok text ∧ parseMessage n text = .ok m' ∧ m' = m ∧
    m'.calculateHash n.cm = m.calculateHash s.cm

theorem parse_serialize_iff {write : JsonObject → Bytes} (h : WellBuilt n m)
    (hjson : ReadsBack n write m.members) :
    parseMessage n (cString (write m.members)) = .ok m ↔ ∀ text ∈ m.child, 0 ∉ text := by
  obtain ⟨hlength, hread⟩ := hjson
  have hfields := parseFields_members h.fits h.clean h.constructible.ecdsaSig
  have hcut : cString (cString (write m.members)) = cString (write m.members) :=
    cString_of_not_mem (zero_not_mem_cString _)
  rw [← createdAs_iff h.builtAs rfl, parseMessage_eq_ok, hcut, hread]
  constructor
  · rintro ⟨-, d, w, hd, hw, hm⟩
    cases hd
    cases hfields.symm.trans hw
    exact (createMessage_eq_ok.mp hm).2.2.2
  · intro hcreated
    refine ⟨?_, _, _, rfl, hfields,
      createMessage_eq_ok.mpr ⟨h.schainID, rfl, h.constructible, hcreated⟩⟩
    intro hnil
    rw [hnil] at hlength
    cases hlength

end RoundTrip

/-- A message that a correct node built, or that was read from bytes that were received. -/
inductive Known (n : Receiver) (m : NetworkMessage) : Prop
  | built (s : Sender) (hcorrect : s.Correct n) (msgID timeMs : UInt64) (htime : timeMs ≠ 0)
      (draft : Draft) (h : s.build msgID timeMs draft = .ok m)
  | received (bytes : Bytes) (hlength : bytes.length < MAX_CONSENSUS_MESSAGE_LEN)
      (h : parseMessage n bytes = .ok m)

section Known
variable {n : Receiver} {m : NetworkMessage}

theorem Known.fits (hstrings : StringsFit n) (h : Known n m) : m.Fits := by
  cases h with
  | built s hcorrect msgID timeMs htime draft h => exact (wellBuilt_of_build hcorrect htime h).fits
  | received bytes hlength h =>
    obtain ⟨-, d, w, hd, hw, hm⟩ := parseMessage_eq_ok.mp h
    refine fits_of_createMessage (hstrings _ d hd) ?_ hw hm
    have hcut : (cString bytes).length ≤ bytes.length := (List.takeWhile_prefix _).length_le
    have hlimit : MAX_CONSENSUS_MESSAGE_LEN < 2 ^ 32 := by decide
    omega

end Known

/-- Every message that a correct node of the chain builds is read as it was built, and with the
hash it had, exactly when no text of an oracle request or response has a zero in it; and any two
messages that were built or received and have one hash have one content. -/
theorem roundTrips_and_binds_iff (n : Receiver) (s : Sender) (hcorrect : s.Correct n)
    (msgID timeMs : UInt64) (htime : timeMs ≠ 0) (draft : Draft) (m : NetworkMessage)
    (hbuilt : s.build msgID timeMs draft = .ok m) (write : JsonObject → Bytes)
    (hjson : ReadsBack n write m.members) (hstrings : StringsFit n) (a b : NetworkMessage)
    (ha : Known n a) (hb : Known n b)
    (hfree : n.cm.blake3 a.hashInput = n.cm.blake3 b.hashInput → a.hashInput = b.hashInput) :
    (m.RoundTrips s n write ∧ (a.calculateHash n.cm = b.calculateHash n.cm → a.SameContent b)) ↔
      ∀ text ∈ m.child, 0 ∉ text := by
  have hwell := wellBuilt_of_build hcorrect htime hbuilt
  have hbinds : a.calculateHash n.cm = b.calculateHash n.cm → a.SameContent b := fun hhash =>
    sameContent_of_hashInput (ha.fits hstrings) (hb.fits hstrings) (hfree hhash)
  have hserialize : m.serializeToString write = .ok (cString (write m.members)) := by
    refine checkState_bind_eq_ok.mpr ⟨not_isEmpty hwell.constructible.ecdsaSig, ?_⟩
    exact checkState_bind_eq_ok.mpr ⟨decide_eq_true hjson.1, rfl⟩
  rw [← parse_serialize_iff hwell hjson, and_iff_left hbinds]
  constructor
  · rintro ⟨text, m', htext, hparse, rfl, -⟩
    cases hserialize.symm.trans htext
    exact hparse
  · intro hparse
    refine ⟨_, m, hserialize, hparse, rfl, ?_⟩
    rw [calculateHash, calculateHash, hcorrect.blake3]

/-! ### Two responses -/

def escapeZeros : JsonValue → JsonValue
  | .string text => .string (text.flatMap fun b => if b = 0 then textBytes "\\u0000" else [b])
  | value => value

def writeEscaped (d : JsonObject) : Bytes := writeObject (d.map fun e => (e.1, escapeZeros e.2))

def mockupSender : Sender where
  schainID := 1
  nodeID := 11
  schainIndex := 1
  cm := {fourSigners [] [] with isSGXEnabled := false, blake3 := fun _ => List.replicate 32 7}
  lib := {easyLibraries with keccak256 := fun _ => List.replicate 31 0 ++ [1]}
  endpoint := memberJson
  oracleSigner := constantSigner
  blsSignMessageHash _ := none
  signSessionECDSA _ _ := none

/-- A node that reads the members `d`. -/
def mockupReceiver (d : JsonObject) : Receiver where
  schainID := 1
  cm := mockupSender.cm
  rapidjson text := if text = cString (writeEscaped d) then some d else none
  blsSigShare _ _ := true
  parseSpec text := (parseSpec mockupSender.lib text).isOk

theorem correct_mockupSender (d : JsonObject) : mockupSender.Correct (mockupReceiver d) where
  schainID := rfl
  isSGXEnabled := rfl
  blake3 := rfl
  schainIndex := by decide
  parseSpec _ := rfl
  digest _ := rfl
  keccak256 _ := rfl
  sigShare := nofun
  session := nofun

def JsonValue.size : JsonValue → ℕ
  | .string text => text.length
  | _ => 0

/-- What is written of `d` is long enough. -/
def Written (d : JsonObject) : Prop :=
  16 < (cString (writeEscaped d)).length ∧
    ∀ e ∈ d, e.2.size ≤ (cString (writeEscaped d)).length

instance (d : JsonObject) : Decidable (Written d) :=
  inferInstanceAs (Decidable (_ ∧ ∀ e ∈ d, _))

theorem readsBack_mockupReceiver {d : JsonObject} (h : Written d) :
    ReadsBack (mockupReceiver d) writeEscaped d :=
  ⟨h.1, if_pos rfl⟩

theorem stringsFit_mockupReceiver {d : JsonObject} (h : Written d) :
    StringsFit (mockupReceiver d) := by
  intro text d' hread name value hlookup
  simp only [mockupReceiver] at hread
  split_ifs at hread with htext
  cases hread
  obtain ⟨l₁, l₂, hd, -⟩ := List.lookup_eq_some_iff.mp hlookup
  rw [htext]
  exact h.2 (name, .string value) (by simp [hd])

/-- The answer to a request, whose server responds with `text`. -/
def responseDraft (text : String) : Draft :=
  .oracleRsp 1 (webRequest ",\"pow\":7\x7d") ORACLE_SUCCESS
    (textBytes ("\x7b\"x\":\"" ++ text ++ "\"\x7d"))

theorem roundTrips_response :
    ∃ m, mockupSender.build 1 1 (responseDraft "1.5") = .ok m ∧
      m.RoundTrips mockupSender (mockupReceiver m.members) writeEscaped := by
  obtain ⟨m, hm, hwritten, hzero⟩ : ∃ m, mockupSender.build 1 1 (responseDraft "1.5") = .ok m ∧
      Written m.members ∧ ∀ text ∈ m.child, 0 ∉ text := exists_ok (by decide +kernel)
  have hknown : Known (mockupReceiver m.members) m :=
    .built mockupSender (correct_mockupSender _) 1 1 (by decide) _ hm
  refine ⟨m, hm, ((roundTrips_and_binds_iff _ mockupSender (correct_mockupSender _) 1 1 (by decide)
    _ m hm writeEscaped (readsBack_mockupReceiver hwritten) (stringsFit_mockupReceiver hwritten) m m
    hknown hknown fun _ => rfl).mpr hzero).1⟩

/-- A server responds with a zero: the node signs all of the result, and the reader has the
beginning of it. -/
theorem zero_ends_result :
    ∃ m m', mockupSender.build 1 1 (responseDraft "a\\u0000b") = .ok m ∧
      mockupSender.Correct (mockupReceiver m.members) ∧
      ReadsBack (mockupReceiver m.members) writeEscaped m.members ∧
      StringsFit (mockupReceiver m.members) ∧
      parseMessage (mockupReceiver m.members) (cString (writeEscaped m.members)) = .ok m' ∧
      m'.child ≠ m.child ∧
      ¬ m.RoundTrips mockupSender (mockupReceiver m.members) writeEscaped := by
  obtain ⟨m, hm, hwritten, hparse⟩ :
      ∃ m, mockupSender.build 1 1 (responseDraft "a\\u0000b") = .ok m ∧ Written m.members ∧
        (parseMessage (mockupReceiver m.members) (cString (writeEscaped m.members))).toOption.map
          (fun m' => decide (m'.child ≠ m.child)) = some true := exists_ok (by decide +kernel)
  obtain ⟨m', hm', hchild⟩ := exists_ok hparse
  refine ⟨m, m', hm, correct_mockupSender _, readsBack_mockupReceiver hwritten,
    stringsFit_mockupReceiver hwritten, hm', hchild, ?_⟩
  rintro ⟨text, m'', htext, hread, hsame, -⟩
  have htext := after_check (after_check htext)
  cases htext
  cases hm'.symm.trans hread
  exact hchild (congrArg NetworkMessage.child hsame)

end SkaleConsensus.Network
