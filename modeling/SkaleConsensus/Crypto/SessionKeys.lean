import SkaleConsensus.Common
import SkaleConsensus.Library.Execution
import SkaleConsensus.Library.LruCache
import SkaleConsensus.Library.Program

/-! Session keys and the cache of the checked ones.

A node signs with an EdDSA key it makes for each block and certifies with its
ECDSA key. `verifySessionSigAndKey` checks the certificate and then the
signature; a certificate that was checked is remembered under its own text, and
found there it is not checked again.

The tables of a `CryptoManager` are filled when it is built and do not change;
BLAKE3 and OpenSSL are parameters. -/
namespace SkaleConsensus.Crypto
open Library

def SESSION_PUBLIC_KEY_CACHE_SIZE : ℕ := 16

/-- `node_id( -1 )`: no second node to try. -/
def noNodeID : NodeID := 2 ^ 64 - 1

/-- The time stamp `uint64_t( -1 )`: now, and the end of the current node group. -/
def currentTimeStamp : ℕ := 2 ^ 64 - 1

structure NodeInfo where
  nodeID : NodeID
  schainIndex : SchainIndex
deriving DecidableEq, Repr

/-- The configuration the verifying functions read, and the libraries they call. -/
structure CryptoManager where
  isSGXEnabled : Bool
  isSyncNode : Bool
  hasBlsPublicKey : Bool
  nodeCount : ℕ
  nodeInfosByIndex : SchainIndex → Option NodeInfo
  /-- The table is filled under the nodes' own indices. -/
  schainIndex_eq : ∀ i info, nodeInfosByIndex i = some info → info.schainIndex = i
  ecdsaPublicKeyMap : NodeID → Option Bytes
  historicECDSAPublicKeys : NodeID → Option Bytes
  /-- The nodes before each rotation, by the time stamp of the rotation. -/
  historicNodeGroups : OrderedMap ℕ (List NodeID)
  blake3 : Bytes → Hash
  /-- `OpenSSLECDSAKey`: key, digest, signature. -/
  verifyECDSA : Bytes → Hash → Bytes → Bool
  /-- `OpenSSLEdDSAKey`: key, digest, signature. -/
  verifyEdDSA : Bytes → Hash → Bytes → Bool

namespace CryptoManager
variable (cm : CryptoManager)

def verifyRealSignatures : Bool := cm.isSGXEnabled || (cm.isSyncNode && cm.hasBlsPublicKey)

/-- The node group of a time stamp and the one before it. A group ends at
`currentTimeStamp`, so that no other time stamp is past every group. -/
def groupsAt (timeStamp : ℕ) : Option (List NodeID) × Option (List NodeID) :=
  ((cm.historicNodeGroups.upperBound timeStamp).map Prod.snd,
    (cm.historicNodeGroups.beforeUpperBound timeStamp).map Prod.snd)

/-- The empty string if there is no key. -/
def getECDSAHistoricPublicKeyForNodeId (nodeId : NodeID) (timeStamp : ℕ) : Bytes :=
  let (group, previous) :=
    if timeStamp = currentTimeStamp then (cm.historicNodeGroups.get? timeStamp, none)
    else cm.groupsAt timeStamp
  if nodeId ∈ group.getD [] ∨ group.isSome ∧ nodeId ∈ previous.getD [] then
    (cm.historicECDSAPublicKeys nodeId).getD []
  else []

def getECDSAPublicKeyForNodeId (nodeId : NodeID) (timeStamp : ℕ) : Bytes :=
  match cm.ecdsaPublicKeyMap nodeId with
  | some key => key
  | none => cm.getECDSAHistoricPublicKeyForNodeId nodeId timeStamp

/-- The mockup signature is the digest; a node that is sent one with a colon exits. -/
def verifyMockup (hash : Hash) (sig : Bytes) : Bool := !sig.contains 58 && sig == toHex hash

def verifyECDSASig (hash : Hash) (sig : Bytes) (nodeId : NodeID) (timeStamp : ℕ) : Bool :=
  !sig.isEmpty &&
    if cm.isSGXEnabled then
      !(cm.getECDSAPublicKeyForNodeId nodeId timeStamp).isEmpty &&
        cm.verifyECDSA (cm.getECDSAPublicKeyForNodeId nodeId timeStamp) hash sig
    else cm.isSyncNode || verifyMockup hash sig

def verifySessionEdDSASig (hash : Hash) (sig publicKey : Bytes) : Bool :=
  !sig.isEmpty &&
    if cm.isSGXEnabled then cm.verifyEdDSA publicKey hash sig
    else cm.isSyncNode || verifyMockup hash sig

/-- What a certificate signs: the block it is for, and the key. -/
def calculatePublicKeyHash (publicKey : Bytes) (blockID : ℕ) : Hash :=
  cm.blake3 (leBytes 8 blockID ++ publicKey)

end CryptoManager

/-- The arguments of `verifySessionSigAndKey`. -/
structure SessionCall where
  hash : Hash
  sig : Bytes
  publicKey : Bytes
  pkSig : Bytes
  blockID : ℕ
  nodeId : NodeID × NodeID
  timeStamp : ℕ
deriving DecidableEq, Repr

/-- `sessionPublicKeys`: the keys by their certificates. -/
abbrev SessionCache := LruCache Bytes Bytes SESSION_PUBLIC_KEY_CACHE_SIZE

section Verify
variable (cm : CryptoManager) (a : SessionCall)

/-- The certificate of a call verifies under the key of one node. -/
def certifiedBy (nodeId : NodeID) : Bool :=
  cm.verifyECDSASig (cm.calculatePublicKeyHash a.publicKey a.blockID) a.pkSig nodeId a.timeStamp

/-- It verifies under the key of the first node, or of the second if there is one. -/
def certified : Bool :=
  certifiedBy cm a a.nodeId.1 || (a.nodeId.2 != noNodeID && certifiedBy cm a a.nodeId.2)

/-- The part of `verifySessionSigAndKey` that holds `publicSessionKeysLock`. -/
def checkSessionKey : EStateM String SessionCache Unit := do
  let cache ← get
  match cache.get? a.pkSig with
  | some publicKey2 =>
    set (cache.touch a.pkSig)
    checkState (publicKey2 == a.publicKey) "publicKey2 == _publicKey"
  | none =>
    if cm.isSGXEnabled then
      if certified cm a then set (cache.put a.pkSig a.publicKey)
      else throw "verifySessionSigAndKey"

def verifySessionSigAndKey : EStateM String SessionCache Unit := do
  checkState (!a.sig.isEmpty) "!_sig.empty()"
  checkSessionKey cm a
  if cm.verifySessionEdDSASig a.hash a.sig a.publicKey then pure ()
  else throw "verifySessionSigAndKey"

end Verify

section Accepted
variable {cm : CryptoManager} {a : SessionCall} {c c' : SessionCache}

theorem checkSessionKey_run_of_cached {pk : Bytes} (h : c.get? a.pkSig = some pk) :
    (checkSessionKey cm a).run c =
      (checkState (pk == a.publicKey) "publicKey2 == _publicKey" :
        EStateM String SessionCache Unit).run (c.touch a.pkSig) := by
  unfold checkSessionKey
  rw [EStateM.run_bind]
  simp only [EStateM.run_get, h]
  rfl

theorem checkSessionKey_run_of_new (h : c.get? a.pkSig = none) (hsgx : cm.isSGXEnabled = true) :
    (checkSessionKey cm a).run c =
      if certified cm a then .ok () (c.put a.pkSig a.publicKey)
      else .error "verifySessionSigAndKey" c := by
  unfold checkSessionKey
  rw [EStateM.run_bind]
  simp only [EStateM.run_get, h, hsgx, if_true]
  cases certified cm a <;> rfl

/-- The key of a call is accepted: found under its certificate, or certified now. -/
def keyAccepted (cm : CryptoManager) (a : SessionCall) (c : SessionCache) : Bool :=
  match c.get? a.pkSig with
  | some pk => pk == a.publicKey
  | none => certified cm a

variable (hsgx : cm.isSGXEnabled = true)
include hsgx

theorem checkSessionKey_run_eq_ok : (checkSessionKey cm a).run c = .ok () c' ↔
      keyAccepted cm a c = true ∧ c' = finalState (checkSessionKey cm a) c := by
  unfold keyAccepted finalState
  cases hc : c.get? a.pkSig with
  | some pk =>
    rw [checkSessionKey_run_of_cached hc, checkState_run]
    dsimp only
    cases pk == a.publicKey <;> simp [eq_comm]
  | none =>
    rw [checkSessionKey_run_of_new hc hsgx]
    dsimp only
    cases certified cm a <;> simp [eq_comm]

theorem verifySessionSigAndKey_run_eq_ok : (verifySessionSigAndKey cm a).run c = .ok () c' ↔
      a.sig ≠ [] ∧ keyAccepted cm a c = true ∧ cm.verifyEdDSA a.publicKey a.hash a.sig = true ∧
        c' = finalState (checkSessionKey cm a) c := by
  unfold verifySessionSigAndKey
  simp only [run_bind_eq_ok, checkState_run_eq_ok]
  constructor
  · rintro ⟨⟨⟩, _, ⟨hsig, rfl⟩, ⟨⟩, mid, hkey, hsess⟩
    obtain ⟨hacc, rfl⟩ := (checkSessionKey_run_eq_ok hsgx).mp hkey
    have hne : a.sig ≠ [] := by simpa using hsig
    unfold CryptoManager.verifySessionEdDSASig at hsess
    rw [hsig, hsgx, Bool.true_and, if_pos rfl] at hsess
    cases hed : cm.verifyEdDSA a.publicKey a.hash a.sig with
    | false =>
      rw [hed] at hsess
      cases hsess
    | true =>
      rw [hed] at hsess
      cases hsess
      exact ⟨hne, hacc, rfl, rfl⟩
  · rintro ⟨hne, hacc, hed, rfl⟩
    have hsig : (!a.sig.isEmpty) = true := by simpa using hne
    refine ⟨(), c, ⟨hsig, rfl⟩, (), _, (checkSessionKey_run_eq_ok hsgx).mpr ⟨hacc, rfl⟩, ?_⟩
    unfold CryptoManager.verifySessionEdDSASig
    rw [hsig, hsgx, hed]
    rfl

/-- What a call accepts depends on the cache only through `keyAccepted`. -/
theorem returns_verifySessionSigAndKey : returns (verifySessionSigAndKey cm a) c = true ↔
      a.sig ≠ [] ∧ keyAccepted cm a c = true ∧ cm.verifyEdDSA a.publicKey a.hash a.sig = true := by
  constructor
  · intro h
    obtain ⟨⟨⟩, hrun⟩ := run_of_returns h
    obtain ⟨hne, hacc, hed, -⟩ := (verifySessionSigAndKey_run_eq_ok hsgx).mp hrun
    exact ⟨hne, hacc, hed⟩
  · rintro ⟨hne, hacc, hed⟩
    have hrun := (verifySessionSigAndKey_run_eq_ok hsgx).mpr ⟨hne, hacc, hed, rfl⟩
    unfold returns result?
    rw [hrun]
    rfl

end Accepted

/-! ### Sequences of calls -/

/-- The cache over a sequence of calls, accepted or not. -/
def sessions (cm : CryptoManager) : Machine SessionCache SessionCall where
  initial := .empty
  step a c := some (finalState (verifySessionSigAndKey cm a) c)

/-- The call accepts what it accepts on an empty cache. -/
def Agrees (cm : CryptoManager) (a : SessionCall) (c : SessionCache) : Prop :=
  returns (verifySessionSigAndKey cm a) c = returns (verifySessionSigAndKey cm a) .empty

/-- Two calls with one certificate, the first of them certified: the second has the same key
exactly when its certificate is good, for its own nodes and block. -/
def Covers (cm : CryptoManager) (earlier a : SessionCall) : Prop :=
  earlier.pkSig = a.pkSig → certified cm earlier = true →
    (earlier.publicKey = a.publicKey ↔ certified cm a = true)

instance (cm : CryptoManager) (a : SessionCall) (c : SessionCache) : Decidable (Agrees cm a c) :=
  inferInstanceAs (Decidable (_ = _))

instance (cm : CryptoManager) (earlier a : SessionCall) : Decidable (Covers cm earlier a) :=
  inferInstanceAs (Decidable (_ → _ → _))

section Sequences
variable {cm : CryptoManager} {a : SessionCall} {c : SessionCache}

/-- A call that finds its certificate agrees if the key found stands for the check it replaces. -/
theorem agrees_of_found (hsgx : cm.isSGXEnabled = true)
    (h : ∀ pk ∈ c.get? a.pkSig, (pk = a.publicKey ↔ certified cm a = true)) : Agrees cm a c := by
  have hkey : keyAccepted cm a c = true ↔ keyAccepted cm a .empty = true := by
    show _ ↔ certified cm a = true
    unfold keyAccepted
    cases hc : c.get? a.pkSig with
    | none => exact Iff.rfl
    | some pk => exact beq_iff_eq.trans (h pk hc)
  unfold Agrees
  rw [Bool.eq_iff_iff, returns_verifySessionSigAndKey hsgx, returns_verifySessionSigAndKey hsgx,
    hkey]

/-- A call leaves the cache as it was, but for the key it certified. -/
theorem of_get?_finalState (hsgx : cm.isSGXEnabled = true) {pkSig pk : Bytes}
    (h : (finalState (verifySessionSigAndKey cm a) c).get? pkSig = some pk) :
    c.get? pkSig = some pk ∨ pkSig = a.pkSig ∧ pk = a.publicKey ∧ certified cm a = true := by
  have hkey : ∀ {k v}, (finalState (checkSessionKey cm a) c).get? k = some v →
      c.get? k = some v ∨ k = a.pkSig ∧ v = a.publicKey ∧ certified cm a = true := by
    intro k v hv
    cases hc : c.get? a.pkSig with
    | some pk' =>
      have hstate : finalState (checkSessionKey cm a) c = c.touch a.pkSig := by
        rw [finalState_congr (checkSessionKey_run_of_cached hc), finalState, checkState_run]
        cases pk' == a.publicKey <;> rfl
      rw [hstate, LruCache.get?_touch] at hv
      exact .inl hv
    | none =>
      have hrun := checkSessionKey_run_of_new hc hsgx
      cases hcert : certified cm a with
      | false =>
        rw [hcert, if_neg (by decide)] at hrun
        rw [finalState_of_error hrun] at hv
        exact .inl hv
      | true =>
        rw [hcert, if_pos rfl] at hrun
        rw [finalState_of_ok hrun] at hv
        rcases LruCache.of_get?_put hv with ⟨rfl, rfl⟩ | ⟨-, hv⟩
        · exact .inr ⟨rfl, rfl, rfl⟩
        · exact .inl hv
  unfold verifySessionSigAndKey at h
  cases hsig : !a.sig.isEmpty with
  | false =>
    rw [hsig, finalState_bind_of_error (checkState_run_of_false rfl _ c)] at h
    exact .inl h
  | true =>
    rw [hsig, finalState_bind_of_ok (checkState_run_of_true rfl _ c)] at h
    cases hrun : (checkSessionKey cm a).run c with
    | error e c' =>
      rw [finalState_bind_of_error hrun, ← finalState_of_error hrun] at h
      exact hkey h
    | ok u c' =>
      rw [finalState_bind_of_ok hrun] at h
      refine hkey ?_
      rw [finalState_of_ok hrun]
      cases hed : cm.verifySessionEdDSASig a.hash a.sig a.publicKey <;> rw [hed] at h <;> exact h

theorem certified_of_get? (hsgx : cm.isSGXEnabled = true) {calls : List SessionCall}
    (hrun : (sessions cm).run calls = some c) {pkSig pk : Bytes} (hpk : c.get? pkSig = some pk) :
    ∃ a ∈ calls, pkSig = a.pkSig ∧ pk = a.publicKey ∧ certified cm a = true := by
  refine Machine.run_invariant_of_keeps
    (P := fun c => ∀ k v, c.get? k = some v →
      ∃ a ∈ calls, k = a.pkSig ∧ v = a.publicKey ∧ certified cm a = true)
    hrun (Machine.keeps_of_forall (C := fun a _ => a ∈ calls) (fun a ha _ => ha) _) ?_ ?_
    pkSig pk hpk
  · intro k v hv
    cases hv
  · intro a s s' ih ha hstep k v hv
    cases hstep
    rcases of_get?_finalState hsgx hv with hv | ⟨rfl, rfl, hcert⟩
    · exact ih k v hv
    · exact ⟨a, ha, rfl, rfl, hcert⟩

/-- What a hit in the cache is worth: some earlier call certified this key with this
certificate, for nodes and a block of its own. -/
theorem certified_of_cached (hsgx : cm.isSGXEnabled = true) {calls : List SessionCall}
    (hrun : (sessions cm).run calls = some c) {pkSig pk : Bytes} (hpk : c.get? pkSig = some pk) :
    ∃ a ∈ calls, pkSig = a.pkSig ∧ pk = a.publicKey ∧ certified cm a = true :=
  certified_of_get? hsgx hrun hpk

/-- Each call of a sequence accepts what it accepts on an empty cache, if every call before it that
certified a key with its certificate covers it. -/
theorem agrees_keeps_of_covers (hsgx : cm.isSGXEnabled = true) {calls : List SessionCall}
    (hcovers : calls.Pairwise (Covers cm)) :
    (sessions cm).Keeps (Agrees cm) (sessions cm).initial calls := by
  refine Machine.keeps_of_runs fun before a rest c hsplit hrun => ?_
  refine agrees_of_found hsgx fun pk hpk => ?_
  obtain ⟨earlier, hmem, hpkSig, rfl, hcert⟩ := certified_of_get? hsgx hrun hpk
  rw [hsplit] at hcovers
  exact (List.pairwise_append.mp hcovers).2.2 earlier hmem a List.mem_cons_self hpkSig.symm hcert

end Sequences

/-- The ECDSA keys of the nodes 11 to 14 are the letters a to d. -/
def letter (nodeId : NodeID) : Bytes := [UInt8.ofNat (86 + nodeId)]

/-- Four nodes with ideal signatures: a digest is the text in hexadecimal, and a signature
is the key and the digest, good if it is one of those that were made. -/
def fourSigners (certificates signatures : List (Bytes × Hash)) : CryptoManager where
  isSGXEnabled := true
  isSyncNode := false
  hasBlsPublicKey := true
  nodeCount := 4
  nodeInfosByIndex i := if i ∈ [1, 2, 3, 4] then some ⟨10 + i, i⟩ else none
  schainIndex_eq i info h := by
    split_ifs at h
    cases h
    rfl
  ecdsaPublicKeyMap id := if id ∈ [11, 12, 13, 14] then some (letter id) else none
  historicECDSAPublicKeys _ := none
  historicNodeGroups := .empty
  blake3 := toHex
  verifyECDSA key hash sig := certificates.contains (key, hash) && sig == key ++ hash
  verifyEdDSA key hash sig := signatures.contains (key, hash) && sig == key ++ hash

theorem letter_injective :
    ∀ x ∈ [11, 12, 13, 14], ∀ y ∈ [11, 12, 13, 14], letter x = letter y → x = y := by
  decide

theorem key_fourSigners {certificates signatures : List (Bytes × Hash)} {x : NodeID} {timeStamp : ℕ}
    (h : (fourSigners certificates signatures).getECDSAPublicKeyForNodeId x timeStamp ≠ []) :
    x ∈ [11, 12, 13, 14] ∧
      (fourSigners certificates signatures).getECDSAPublicKeyForNodeId x timeStamp = letter x := by
  unfold CryptoManager.getECDSAPublicKeyForNodeId at h ⊢
  by_cases hx : x ∈ [11, 12, 13, 14]
  · have hletter : (fourSigners certificates signatures).ecdsaPublicKeyMap x = some (letter x) :=
      if_pos hx
    rw [hletter]
    exact ⟨hx, rfl⟩
  · have hnone : (fourSigners certificates signatures).ecdsaPublicKeyMap x = none := if_neg hx
    rw [hnone] at h
    refine absurd ?_ h
    show (fourSigners certificates signatures).getECDSAHistoricPublicKeyForNodeId x timeStamp = []
    unfold CryptoManager.getECDSAHistoricPublicKeyForNodeId
    split
    exact ite_self []

/-- The session key of the examples, and the digest its certificates sign. -/
def sessionKey : Bytes := textBytes "k"

def certificateHash (blockID : ℕ) : Hash := toHex (leBytes 8 blockID ++ sessionKey)

/-- Node 11 certified the session key for block 1 and signed 1 and 2 with it. -/
def oneSession : CryptoManager :=
  fourSigners [(letter 11, certificateHash 1)] [(sessionKey, [1]), (sessionKey, [2])]

/-- The session key of `oneSession` signs `hash`; the caller says which node and block it
is for. -/
def callFor (nodeId : NodeID) (blockID : ℕ) (hash : Hash) : SessionCall where
  hash := hash
  sig := sessionKey ++ hash
  publicKey := sessionKey
  pkSig := letter 11 ++ certificateHash 1
  blockID := blockID
  nodeId := (nodeId, noNodeID)
  timeStamp := currentTimeStamp

theorem certified_of_cached_oneSession :
    ∃ c, (sessions oneSession).run [callFor 11 1 [1], callFor 12 1 [2]] = some c ∧
      ∃ a ∈ [callFor 11 1 [1], callFor 12 1 [2]], letter 11 ++ certificateHash 1 = a.pkSig ∧
        sessionKey = a.publicKey ∧ certified oneSession a = true := by
  obtain ⟨c, hrun, hcached⟩ : ∃ c,
      (sessions oneSession).run [callFor 11 1 [1], callFor 12 1 [2]] = some c ∧
        c.get? (letter 11 ++ certificateHash 1) = some sessionKey :=
    Machine.exists_run (by decide +kernel)
  exact ⟨c, hrun, certified_of_cached rfl hrun hcached⟩

theorem agrees_keeps_oneSession :
    (sessions oneSession).Keeps (Agrees oneSession) (sessions oneSession).initial
      [callFor 11 1 [1], callFor 11 1 [2]] :=
  agrees_keeps_of_covers rfl (by decide +kernel)

/-- After node 11 has used its key for block 1, anyone may use it in the name of node 12
or for block 2. -/
theorem oneSession_not_agrees :
    ¬ (sessions oneSession).Keeps (Agrees oneSession) (sessions oneSession).initial
        [callFor 11 1 [1], callFor 12 1 [2]] ∧
      ¬ (sessions oneSession).Keeps (Agrees oneSession) (sessions oneSession).initial
        [callFor 11 1 [1], callFor 11 2 [2]] := by
  decide +kernel

end SkaleConsensus.Crypto
