import SkaleConsensus.Network.Outgoing

/-! What a message is made of by the node that reads it.

The reader finds the members that were written (`parseFields_members`) and makes a message of
them: `createMessage_eq_ok` says which, type by type. -/
namespace SkaleConsensus.Network
open Library Crypto Oracle NetworkMessage MsgType

/-! ### What is read of what was written -/

/-- The texts that the node makes itself have no zero. -/
structure NetworkMessage.Clean (m : NetworkMessage) : Prop where
  sigShareString : 0 ∉ m.sigShareString
  ecdsaSig : 0 ∉ m.ecdsaSig
  publicKey : 0 ∉ m.publicKey
  pkSig : 0 ∉ m.pkSig

def NetworkMessage.parsedFields (m : NetworkMessage) : ParsedFields where
  sChainID := m.schainID
  blockID := m.blockID
  blockProposerIndex := m.blockProposerIndex
  type := textBytes m.msgType.typeString
  msgID := m.msgID
  srcNodeID := m.srcNodeID
  srcSchainIndex := m.srcSchainIndex
  round := m.r
  timeMs := m.timeMs
  value := m.value
  sigShare := m.sigShareString
  ecdsaSig := m.ecdsaSig
  publicKey := m.publicKey
  pkSig := m.pkSig

variable {m : NetworkMessage}

theorem getStringRapid_of_lookup {d : JsonObject} {name : String} {text : Bytes}
    (h : d.lookup name = some (.string text)) : getStringRapid d name = .ok (cString text) := by
  unfold getStringRapid
  rw [h]
  rfl

theorem lookup_sss_childMembers : m.childMembers.lookup "sss" = none := by
  unfold childMembers
  split <;> rfl

theorem lookup_sss : m.members.lookup "sss" =
    if m.sigShareString.isEmpty then none else some (.string m.sigShareString) := by
  cases hshare : m.sigShareString.isEmpty with
  | false => simp only [NetworkMessage.members, hshare]; rfl
  | true =>
    simp only [NetworkMessage.members, hshare, if_true]
    exact lookup_sss_childMembers

theorem lookup_signature : m.members.lookup "sig" = some (.string m.ecdsaSig) ∧
    m.members.lookup "pk" = some (.string m.publicKey) ∧
    m.members.lookup "pks" = some (.string m.pkSig) := by
  unfold NetworkMessage.members
  cases m.sigShareString.isEmpty <;> exact ⟨rfl, rfl, rfl⟩

theorem lookup_child : (m.members.lookup "spec" = m.childMembers.lookup "spec") ∧
    m.members.lookup "rslt" = m.childMembers.lookup "rslt" ∧
    m.members.lookup "rcpt" = m.childMembers.lookup "rcpt" := by
  unfold NetworkMessage.members
  cases m.sigShareString.isEmpty <;> exact ⟨rfl, rfl, rfl⟩

theorem getStringRapid_spec {spec : Bytes} (htype : m.msgType = .oracleReqBroadcast)
    (hchild : m.child = [spec]) : getStringRapid m.members "spec" = .ok (cString spec) := by
  apply getStringRapid_of_lookup
  rw [lookup_child.1, childMembers, htype, hchild]
  rfl

theorem getStringRapid_rslt {result receipt : Bytes} (htype : m.msgType = .oracleRsp)
    (hchild : m.child = [result, receipt]) :
    getStringRapid m.members "rslt" = .ok (cString result) ∧
      getStringRapid m.members "rcpt" = .ok (cString receipt) := by
  obtain ⟨-, hrslt, hrcpt⟩ := lookup_child (m := m)
  constructor
  · apply getStringRapid_of_lookup
    rw [hrslt, childMembers, htype, hchild]
    rfl
  · apply getStringRapid_of_lookup
    rw [hrcpt, childMembers, htype, hchild]
    rfl

theorem toNat_ofNat_of_lt {n : ℕ} (h : n < 2 ^ 64) : (UInt64.ofNat n).toNat = n := by
  rw [UInt64.toNat_ofNat']
  exact Nat.mod_eq_of_lt h

theorem toUInt8_ofNat_toNat (v : Value) : (UInt64.ofNat v.toNat).toUInt8 = v := by
  apply UInt8.toNat_inj.mp
  have hv := v.toNat_lt
  rw [UInt64.toNat_toUInt8, UInt64.toNat_ofNat', Nat.mod_mod_of_dvd _ (by decide),
    Nat.mod_eq_of_lt hv]

theorem parseFields_members (hfits : m.Fits) (hclean : m.Clean) (hsig : m.ecdsaSig ≠ []) :
    parseFields m.members = .ok m.parsedFields := by
  obtain ⟨hecdsa, hpk, hpks⟩ := lookup_signature (m := m)
  have htype : getStringRapid m.members "type" = .ok (textBytes m.msgType.typeString) := by
    have hlookup : m.members.lookup "type" = some (.string (textBytes m.msgType.typeString)) := rfl
    rw [getStringRapid_of_lookup hlookup]
    cases m.msgType <;> rfl
  refine bind_eq_ok.mpr ⟨UInt64.ofNat m.schainID, rfl, ?_⟩
  refine bind_eq_ok.mpr ⟨UInt64.ofNat m.blockID, rfl, ?_⟩
  refine bind_eq_ok.mpr ⟨UInt64.ofNat m.blockProposerIndex, rfl, ?_⟩
  refine bind_eq_ok.mpr ⟨_, htype, ?_⟩
  refine bind_eq_ok.mpr ⟨UInt64.ofNat m.msgID, rfl, ?_⟩
  refine bind_eq_ok.mpr ⟨UInt64.ofNat m.srcNodeID, rfl, ?_⟩
  refine bind_eq_ok.mpr ⟨UInt64.ofNat m.srcSchainIndex, rfl, ?_⟩
  refine bind_eq_ok.mpr ⟨UInt64.ofNat m.r, rfl, ?_⟩
  refine bind_eq_ok.mpr ⟨UInt64.ofNat m.timeMs, rfl, ?_⟩
  refine bind_eq_ok.mpr ⟨UInt64.ofNat m.value.toNat, rfl, ?_⟩
  refine ite_bind_eq_ok.mpr ⟨m.sigShareString, ?_, ?_⟩
  · cases hshare : m.sigShareString.isEmpty with
    | true =>
      rw [lookup_sss, hshare, List.isEmpty_iff.mp hshare]
      rfl
    | false =>
      have hsss : m.members.lookup "sss" = some (.string m.sigShareString) := by
        rw [lookup_sss, hshare]
        rfl
      rw [hsss, getStringRapid_of_lookup hsss, cString_of_not_mem hclean.sigShareString]
      rfl
  refine bind_eq_ok.mpr ⟨m.ecdsaSig, ?_, ?_⟩
  · rw [getStringRapid_of_lookup hecdsa, cString_of_not_mem hclean.ecdsaSig]
  refine bind_eq_ok.mpr ⟨m.publicKey, ?_, ?_⟩
  · rw [getStringRapid_of_lookup hpk, cString_of_not_mem hclean.publicKey]
  refine bind_eq_ok.mpr ⟨m.pkSig, ?_, ?_⟩
  · rw [getStringRapid_of_lookup hpks, cString_of_not_mem hclean.pkSig]
  refine checkState_bind_eq_ok.mpr ⟨not_isEmpty hsig, ?_⟩
  simp only [toNat_ofNat_of_lt hfits.schainID, toNat_ofNat_of_lt hfits.blockID,
    toNat_ofNat_of_lt hfits.blockProposerIndex, toNat_ofNat_of_lt hfits.msgID,
    toNat_ofNat_of_lt hfits.srcNodeID, toNat_ofNat_of_lt hfits.srcSchainIndex,
    toNat_ofNat_of_lt hfits.r, toNat_ofNat_of_lt hfits.timeMs, toUInt8_ofNat_toNat]
  rfl

/-! ### What is made of what was read -/

/-- What the constructor of `NetworkMessage` asks. -/
structure Constructible (n : Receiver) (m : NetworkMessage) : Prop where
  blockID : m.blockID ≠ 0
  srcSchainIndex : 0 < m.srcSchainIndex
  ecdsaSig : m.ecdsaSig ≠ []
  timeMs : 0 < m.timeMs
  sigShare : n.cm.isSGXEnabled = true → m.sigShareString ≠ [] → COMMON_COIN_ROUND ≤ m.r →
    n.blsSigShare m.sigShareString m.srcSchainIndex = true

section Read
variable {n : Receiver} {d : JsonObject} {w : ParsedFields} {m m' : NetworkMessage}

theorem construct_eq_ok : construct n m = .ok m' ↔ m' = m ∧ Constructible n m := by
  constructor
  · intro h
    obtain ⟨hblock, h⟩ := checkState_bind_eq_ok.mp h
    obtain ⟨hindex, h⟩ := checkArgument_bind_eq_ok.mp h
    obtain ⟨hsig, h⟩ := checkArgument_bind_eq_ok.mp h
    obtain ⟨htime, h⟩ := checkArgument_bind_eq_ok.mp h
    dsimp only at h
    have hchecks : (n.cm.isSGXEnabled = true → m.sigShareString ≠ [] → COMMON_COIN_ROUND ≤ m.r →
        n.blsSigShare m.sigShareString m.srcSchainIndex = true) → Constructible n m := fun hshare =>
      ⟨by simpa using hblock, by simpa using hindex,
        by simpa using hsig, by simpa using htime, hshare⟩
    split_ifs at h with hshare hbls
    · cases h
    · cases h
      exact ⟨rfl, hchecks fun _ _ _ => by simpa using hbls⟩
    · cases h
      refine ⟨rfl, hchecks fun hsgx hne hround => absurd ?_ hshare⟩
      simp [hsgx, hne, hround]
  · rintro ⟨rfl, hm⟩
    refine checkState_bind_eq_ok.mpr ⟨by simpa using hm.blockID, ?_⟩
    refine checkArgument_bind_eq_ok.mpr ⟨by simpa using hm.srcSchainIndex, ?_⟩
    refine checkArgument_bind_eq_ok.mpr ⟨by simpa using hm.ecdsaSig, ?_⟩
    refine checkArgument_bind_eq_ok.mpr ⟨by simpa using hm.timeMs, ?_⟩
    dsimp only
    split_ifs with hshare hbls
    · simp only [Bool.and_eq_true, Bool.not_eq_true', List.isEmpty_eq_false_iff,
        decide_eq_true_eq] at hshare
      rw [hm.sigShare hshare.1.2 hshare.1.1 hshare.2] at hbls
      cases hbls
    · rfl
    · rfl

/-- `requestSpec.erase` of the blanks. -/
def withoutBlanks (spec : Bytes) : Bytes := spec.filter fun b => !isSpace b

/-- How the members that were read make a message of a type. -/
def CreatedAs (n : Receiver) (d : JsonObject) (w : ParsedFields) (m : NetworkMessage) :
    MsgType → Prop
  | .bvBroadcast => m = w.message .bvBroadcast
  | .auxBroadcast => m = {w.message .auxBroadcast with sigShareString := w.sigShare} ∧
      (COMMON_COIN_ROUND ≤ m.r → n.cm.isSGXEnabled = true → w.sigShare ≠ [])
  | .blockSignBroadcast =>
      m = {w.message .blockSignBroadcast with r := 4, value := 0, sigShareString := w.sigShare} ∧
      w.sigShare ≠ []
  | .oracleReqBroadcast => ∃ spec, getStringRapid d "spec" = .ok spec ∧ spec.head? = some 123 ∧
      spec.getLast? = some 125 ∧ n.parseSpec (withoutBlanks spec) = true ∧
      m = {w.message .oracleReqBroadcast with
        blockProposerIndex := 0, r := 0, value := 0, child := [withoutBlanks spec]}
  | .oracleRsp => ∃ result receipt, getStringRapid d "rslt" = .ok result ∧ result ≠ [] ∧
      getStringRapid d "rcpt" = .ok receipt ∧ receipt ≠ [] ∧
      m = {w.message .oracleRsp with
        blockProposerIndex := 0, r := 0, value := 0, child := [result, receipt]}

theorem createMessage_eq_ok : createMessage n d w = .ok m ↔
    n.schainID = w.sChainID ∧ w.type = textBytes m.msgType.typeString ∧ Constructible n m ∧
      CreatedAs n d w m m.msgType := by
  constructor
  · intro h
    unfold createMessage at h
    dsimp only at h
    by_cases hschain : (n.schainID != w.sChainID) = true
    · rw [if_pos hschain] at h
      cases h
    rw [if_neg hschain] at h
    refine ⟨by simpa using hschain, ?_⟩
    split_ifs at h with hB hA hS hO hR
    · obtain ⟨rfl, hm⟩ := construct_eq_ok.mp h
      exact ⟨eq_of_beq hB, hm, rfl⟩
    · obtain ⟨m₀, hm₀, h⟩ := bind_eq_ok.mp h
      obtain ⟨rfl, hm⟩ := construct_eq_ok.mp hm₀
      split_ifs at h with hcoin
      · obtain ⟨_, hshare, h⟩ := bind_eq_ok.mp h
        cases h
        exact ⟨eq_of_beq hA, hm, rfl, fun _ _ => by simpa using checkState_eq_ok.mp hshare⟩
      · cases h
        refine ⟨eq_of_beq hA, hm, rfl, fun hround hsgx => absurd ?_ hcoin⟩
        simp [hround, hsgx]
    · obtain ⟨m₀, hm₀, h⟩ := bind_eq_ok.mp h
      obtain ⟨rfl, hm⟩ := construct_eq_ok.mp hm₀
      obtain ⟨_, hshare, h⟩ := bind_eq_ok.mp h
      cases h
      exact ⟨eq_of_beq hS, hm, rfl, by simpa using checkArgument_eq_ok.mp hshare⟩
    · obtain ⟨spec, hspec, h⟩ := bind_eq_ok.mp h
      have h := after_check h
      obtain ⟨m₀, hm₀, h⟩ := bind_eq_ok.mp h
      obtain ⟨rfl, hm⟩ := construct_eq_ok.mp hm₀
      obtain ⟨hbraces, h⟩ := checkState_bind_eq_ok.mp h
      obtain ⟨_, hparse, h⟩ := bind_eq_ok.mp h
      cases h
      obtain ⟨hfirst, hlast⟩ := (Bool.and_eq_true _ _).mp hbraces
      exact ⟨eq_of_beq hO, hm, spec, hspec, eq_of_beq hfirst, eq_of_beq hlast,
        checkState_eq_ok.mp hparse, rfl⟩
    · obtain ⟨result, hresult, h⟩ := bind_eq_ok.mp h
      obtain ⟨_, hne, h⟩ := bind_eq_ok.mp h
      obtain ⟨receipt, hreceipt, h⟩ := bind_eq_ok.mp h
      obtain ⟨_, hne', h⟩ := bind_eq_ok.mp h
      obtain ⟨rfl, hm⟩ := construct_eq_ok.mp h
      exact ⟨eq_of_beq hR, hm, result, receipt, hresult, by simpa using checkState_eq_ok.mp hne,
        hreceipt, by simpa using checkState_eq_ok.mp hne', rfl⟩
  · rintro ⟨hschain, htype, hm, hkind⟩
    unfold createMessage
    dsimp only
    rw [if_neg (by simp [hschain]), htype]
    generalize m.msgType = type at hkind ⊢
    cases type with
    | bvBroadcast => exact construct_eq_ok.mpr ⟨hkind, hkind ▸ hm⟩
    | auxBroadcast =>
      obtain ⟨hkind, hshare⟩ := hkind
      refine bind_eq_ok.mpr ⟨m, construct_eq_ok.mpr ⟨hkind, hkind ▸ hm⟩, ?_⟩
      split_ifs with hcoin
      · obtain ⟨hround, hsgx⟩ := (Bool.and_eq_true _ _).mp hcoin
        have hne := hshare (of_decide_eq_true hround) hsgx
        exact checkState_bind_eq_ok.mpr ⟨not_isEmpty hne, rfl⟩
      · rfl
    | blockSignBroadcast =>
      obtain ⟨hkind, hshare⟩ := hkind
      refine bind_eq_ok.mpr ⟨m, construct_eq_ok.mpr ⟨hkind, hkind ▸ hm⟩, ?_⟩
      exact checkArgument_bind_eq_ok.mpr ⟨not_isEmpty hshare, rfl⟩
    | oracleReqBroadcast =>
      obtain ⟨spec, hspec, hfirst, hlast, hparse, hkind⟩ := hkind
      have hne : spec ≠ [] := by
        rintro rfl
        cases hfirst
      refine bind_eq_ok.mpr ⟨spec, hspec, ?_⟩
      refine checkState_bind_eq_ok.mpr ⟨not_isEmpty hne, ?_⟩
      refine bind_eq_ok.mpr ⟨m, construct_eq_ok.mpr ⟨hkind, hkind ▸ hm⟩, ?_⟩
      refine checkState_bind_eq_ok.mpr ⟨by simp [hfirst, hlast], ?_⟩
      exact checkState_bind_eq_ok.mpr ⟨hparse, rfl⟩
    | oracleRsp =>
      obtain ⟨result, receipt, hresult, hne, hreceipt, hne', hkind⟩ := hkind
      refine bind_eq_ok.mpr ⟨result, hresult, ?_⟩
      refine checkState_bind_eq_ok.mpr ⟨not_isEmpty hne, ?_⟩
      refine bind_eq_ok.mpr ⟨receipt, hreceipt, ?_⟩
      refine checkState_bind_eq_ok.mpr ⟨not_isEmpty hne', ?_⟩
      exact construct_eq_ok.mpr ⟨hkind, hkind ▸ hm⟩

theorem parseMessage_eq_ok {header : Bytes} : parseMessage n header = .ok m ↔
    header ≠ [] ∧ ∃ d w, n.rapidjson (cString header) = some d ∧ parseFields d = .ok w ∧
      createMessage n d w = .ok m := by
  constructor
  · intro h
    obtain ⟨_, hne, h⟩ := bind_eq_ok.mp h
    refine ⟨by simpa using checkArgument_eq_ok.mp hne, ?_⟩
    split at h
    · cases h
    · next d hd =>
      obtain ⟨w, hw, h⟩ := bind_eq_ok.mp h
      exact ⟨d, w, hd, mapError_eq_ok.mp hw, mapError_eq_ok.mp h⟩
  · rintro ⟨hne, d, w, hd, hw, h⟩
    refine checkArgument_bind_eq_ok.mpr ⟨not_isEmpty hne, ?_⟩
    rw [hd]
    exact bind_eq_ok.mpr ⟨w, mapError_eq_ok.mpr hw, mapError_eq_ok.mpr h⟩

end Read

/-! ### Lengths -/

section Lengths
variable {n : Receiver} {m : NetworkMessage} {d : JsonObject} {w : ParsedFields} {limit : ℕ}

theorem length_getStringRapid {name : String} {text : Bytes}
    (hfit : ∀ name value, d.lookup name = some (.string value) → value.length ≤ limit)
    (h : getStringRapid d name = .ok text) : text.length ≤ limit := by
  unfold getStringRapid at h
  split at h
  · cases h
  · next hlookup =>
    cases h
    exact (List.takeWhile_prefix _).length_le.trans (hfit _ _ hlookup)
  · cases h

/-- The numbers have 64 bits, and the share is no longer than the texts. -/
theorem parseFields_eq_ok
    (hfit : ∀ name value, d.lookup name = some (.string value) → value.length ≤ limit)
    (h : parseFields d = .ok w) :
    (w.sChainID < 2 ^ 64 ∧ w.blockID < 2 ^ 64 ∧ w.blockProposerIndex < 2 ^ 64 ∧ w.msgID < 2 ^ 64 ∧
      w.srcNodeID < 2 ^ 64 ∧ w.srcSchainIndex < 2 ^ 64 ∧ w.round < 2 ^ 64 ∧ w.timeMs < 2 ^ 64) ∧
      w.sigShare.length ≤ limit := by
  obtain ⟨sChainID, h⟩ := after_bind h
  obtain ⟨blockID, h⟩ := after_bind h
  obtain ⟨blockProposerIndex, h⟩ := after_bind h
  obtain ⟨type, h⟩ := after_bind h
  obtain ⟨msgID, h⟩ := after_bind h
  obtain ⟨srcNodeID, h⟩ := after_bind h
  obtain ⟨srcSchainIndex, h⟩ := after_bind h
  obtain ⟨round, h⟩ := after_bind h
  obtain ⟨timeMs, h⟩ := after_bind h
  obtain ⟨value, h⟩ := after_bind h
  obtain ⟨sigShare, hshare, h⟩ := ite_bind_eq_ok.mp h
  obtain ⟨ecdsaSig, h⟩ := after_bind h
  obtain ⟨publicKey, h⟩ := after_bind h
  obtain ⟨pkSig, h⟩ := after_bind h
  have h := after_check h
  cases h
  refine ⟨⟨sChainID.toNat_lt, blockID.toNat_lt, blockProposerIndex.toNat_lt, msgID.toNat_lt,
    srcNodeID.toNat_lt, srcSchainIndex.toNat_lt, round.toNat_lt, timeMs.toNat_lt⟩, ?_⟩
  split_ifs at hshare
  · exact length_getStringRapid hfit hshare
  · cases hshare
    exact Nat.zero_le _

theorem fits_of_createMessage
    (hfit : ∀ name value, d.lookup name = some (.string value) → value.length ≤ limit)
    (hlimit : limit < 2 ^ 32) (hw : parseFields d = .ok w) (h : createMessage n d w = .ok m) :
    m.Fits := by
  obtain ⟨⟨h₁, h₂, h₃, h₄, h₅, h₆, h₇, h₈⟩, hshare⟩ := parseFields_eq_ok hfit hw
  have hshare' : w.sigShare.length < 2 ^ 32 := by omega
  obtain ⟨-, -, -, hcreated⟩ := createMessage_eq_ok.mp h
  generalize m.msgType = type at hcreated
  cases type with
  | bvBroadcast =>
    obtain rfl : m = _ := hcreated
    constructor <;> simp_all [ParsedFields.message, childCount]
  | auxBroadcast =>
    obtain ⟨rfl, -⟩ := hcreated
    constructor <;> simp_all [ParsedFields.message, childCount]
  | blockSignBroadcast =>
    obtain ⟨rfl, -⟩ := hcreated
    constructor <;> simp_all [ParsedFields.message, childCount]
  | oracleReqBroadcast =>
    obtain ⟨spec, hspec, -, -, -, rfl⟩ := hcreated
    have hspec' := length_getStringRapid hfit hspec
    have hblanks : (withoutBlanks spec).length ≤ spec.length := List.length_filter_le _ _
    have hchild : (withoutBlanks spec).length < 2 ^ 32 := by omega
    constructor <;> simp_all [ParsedFields.message, childCount]
  | oracleRsp =>
    obtain ⟨result, receipt, hresult, -, hreceipt, -, rfl⟩ := hcreated
    have hresult' := length_getStringRapid hfit hresult
    have hreceipt' := length_getStringRapid hfit hreceipt
    have hchild : result.length < 2 ^ 32 ∧ receipt.length < 2 ^ 32 := by omega
    constructor <;> simp_all [ParsedFields.message, childCount]

end Lengths

end SkaleConsensus.Network
