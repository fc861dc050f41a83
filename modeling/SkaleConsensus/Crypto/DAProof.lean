import SkaleConsensus.Crypto.SessionKeys

/-! Proofs of data availability.

A DA proof is a text of shares, one for each of `getRequiredSigners` different
schain indices; a share is an index, an EdDSA signature, a session key and its
certificate. `verifyDAProofThresholdSig` takes the text apart and has each share
verified for the nodes its index stood for at the time of the block, through the
same cache as every other session signature.

What a proof is for is stated over what the nodes did: which session keys they
certified, and what was signed with those keys. -/
namespace SkaleConsensus.Crypto
open Library

/-! ### The text -/

/-- `boost::tokenizer` with a `char_separator`: empty tokens are dropped. -/
def tokenize (separator : UInt8) (text : Bytes) : List Bytes :=
  (text.splitOn separator).filter fun token => !token.isEmpty

/-- A decimal `uint64_t`. -/
def decimal (digits : Bytes) : Option ℕ :=
  let value := digits.foldl (fun acc d => 10 * acc + (d.toNat - 48)) 0
  if !digits.isEmpty && digits.all (fun d => decide (48 ≤ d) && decide (d ≤ 57)) &&
    decide (value < 2 ^ 64) then some value else none

/-- `boost::lexical_cast< uint64_t >`, which takes a sign and negates modulo 2^64. -/
def lexicalCastUint64 : Bytes → Option ℕ
  | 43 :: digits => decimal digits
  | 45 :: digits => (decimal digits).map fun value => (2 ^ 64 - value) % 2 ^ 64
  | digits => decimal digits

structure ConsensusEdDSASigShare where
  signerIndex : SchainIndex
  sig : Bytes
  publicKey : Bytes
  pkSig : Bytes
deriving DecidableEq, Repr

section Parse
variable (cm : CryptoManager)

def parseShare (text : Bytes) : Except String ConsensusEdDSASigShare :=
  match tokenize 59 text with
  | [index, sig, publicKey, pkSig] =>
    match lexicalCastUint64 index with
    | none => throw "bad lexical cast"
    | some signerIndex => do
      checkState (decide (0 < signerIndex)) "signerIndex > 0"
      checkState (decide (signerIndex ≤ cm.nodeCount)) "signerIndex <= _totalSigners"
      return ⟨signerIndex, sig, publicKey, pkSig⟩
  | _ => throw ("Incorrect ConsensusEdDSASigShare:tokens.size() ! = 4" ++ bytesText text)

def addShare (shares : OrderedMap SchainIndex ConsensusEdDSASigShare) (text : Bytes) :
    Except String (OrderedMap SchainIndex ConsensusEdDSASigShare) := do
  let share ← parseShare cm text
  if shares.contains share.signerIndex then
    throw "Check failed::Duplicate shares in EdDsaThresholdSig"
  return shares.emplace share.signerIndex share

/-- The constructor of `ConsensusEdDSASignature`. -/
def parseShares (mergedSig : Bytes) :
    Except String (OrderedMap SchainIndex ConsensusEdDSASigShare) := do
  checkArgument (!mergedSig.isEmpty) "!_mergedSig.empty()"
  let shares ← (tokenize 42 mergedSig).foldlM (addShare cm) .empty
  if shares.size != getRequiredSigners cm.nodeCount then
    throw ("Check failed::Incorrect shares count:" ++ toString shares.size)
  return shares

/-! ### The signers -/

def getNodeIDByIndex (index : SchainIndex) : Except String NodeID :=
  if cm.nodeCount < index then throw "Index exceeds node count"
  else match cm.nodeInfosByIndex index with
    | some info => pure info.nodeID
    | none => throw "no node info"

/-- The node at an index when the block was made, and the one before it if the block may
be the last before a rotation. -/
def getHistoricNodeIDByIndex (index : SchainIndex) (timeStamp : ℕ) :
    Except String (NodeID × NodeID) :=
  if timeStamp = currentTimeStamp ∨ cm.historicNodeGroups.size < 2 then do
    let nodeId ← getNodeIDByIndex cm index
    return (nodeId, noNodeID)
  else match cm.groupsAt timeStamp with
    | (some group, none) =>
      match group[index - 1]? with
      | some nodeId => pure (nodeId, noNodeID)
      | none => throw "index exceeds node group"
    | (some group, some previous) =>
      match group[index - 1]?, previous[index - 1]? with
      | some nodeId1, some nodeId2 => pure (nodeId1, nodeId2)
      | _, _ => throw "index exceeds node group"
    | (none, _) => throw "no node group"

end Parse

/-- The arguments of `verifyDAProofThresholdSig`. -/
structure DACall where
  hash : Hash
  signature : Bytes
  blockId : ℕ
  timeStamp : ℕ
deriving DecidableEq, Repr

section Verify
variable (cm : CryptoManager) (d : DACall)

/-- What a share of a proof has verified. -/
def shareCall (entry : SchainIndex × ConsensusEdDSASigShare) : Except String SessionCall := do
  let nodeId ← getHistoricNodeIDByIndex cm entry.1 d.timeStamp
  return {
    hash := d.hash, sig := entry.2.sig, publicKey := entry.2.publicKey, pkSig := entry.2.pkSig,
    blockID := d.blockId, nodeId, timeStamp := d.timeStamp }

/-- The loop of `ConsensusEdDSASignature::verify`. -/
def verifyShares :
    List (SchainIndex × ConsensusEdDSASigShare) → EStateM String SessionCache Unit
  | [] => pure ()
  | entry :: rest =>
    match shareCall cm d entry with
    | .error e => throw e
    | .ok a => do
      verifySessionSigAndKey cm a
      verifyShares rest

def verifyDAProofThresholdSig : EStateM String SessionCache Unit := do
  checkArgument (!d.signature.isEmpty) "!_signature.empty()"
  if cm.verifyRealSignatures then
    match parseShares cm d.signature with
    | .error _ => throw "verifyDAProofThresholdSig"
    | .ok shares =>
      (verifyShares cm d shares.entries).adaptExcept fun _ => "verifyDAProofThresholdSig"
  else if !cm.isSyncNode && d.signature != toHex d.hash then throw "verifyDAProofThresholdSig"

end Verify

/-! ### What a proof is for -/

/-- What the nodes did: the session keys they certified for a block, and what was signed
with a session key. -/
structure Signing where
  certifies : NodeID → ℕ → Bytes → Prop
  signs : Bytes → Hash → Prop

/-- The node signed `hash` with a session key that it certified for the block. -/
def Signing.SignedBy (w : Signing) (nodeId : NodeID) (blockID : ℕ) (hash : Hash) : Prop :=
  ∃ publicKey, w.certifies nodeId blockID publicKey ∧ w.signs publicKey hash

/-- A signature that verifies was made. -/
structure Unforgeable (cm : CryptoManager) (w : Signing) : Prop where
  ecdsa : ∀ nodeId timeStamp publicKey blockID sig,
    cm.getECDSAPublicKeyForNodeId nodeId timeStamp ≠ [] →
    cm.verifyECDSA (cm.getECDSAPublicKeyForNodeId nodeId timeStamp)
      (cm.calculatePublicKeyHash publicKey blockID) sig = true →
    w.certifies nodeId blockID publicKey
  eddsa : ∀ publicKey hash sig, cm.verifyEdDSA publicKey hash sig = true → w.signs publicKey hash

def signerNodes (a : SessionCall) : List NodeID :=
  if a.nodeId.2 = noNodeID then [a.nodeId.1] else [a.nodeId.1, a.nodeId.2]

/-- A node of the chain at a time: it stood, or stands, at some index. -/
def IsChainNode (cm : CryptoManager) (timeStamp : ℕ) (nodeId : NodeID) : Prop :=
  ∃ index ids, getHistoricNodeIDByIndex cm index timeStamp = .ok ids ∧
    (nodeId = ids.1 ∨ nodeId = ids.2)

/-- `getRequiredSigners` nodes of the chain signed the hash of a proof. -/
def Genuine (cm : CryptoManager) (w : Signing) (d : DACall) : Prop :=
  ∃ signers : Finset NodeID, getRequiredSigners cm.nodeCount ≤ signers.card ∧
    ∀ x ∈ signers, IsChainNode cm d.timeStamp x ∧ w.SignedBy x d.blockId d.hash

section Certified
variable {cm : CryptoManager} {a : SessionCall}

theorem certifies_of_certifiedBy {w : Signing} (hunf : Unforgeable cm w)
    (hsgx : cm.isSGXEnabled = true) {x : NodeID} (h : certifiedBy cm a x = true) :
    w.certifies x a.blockID a.publicKey := by
  unfold certifiedBy CryptoManager.verifyECDSASig at h
  rw [hsgx, if_pos rfl] at h
  simp only [Bool.and_eq_true, Bool.not_eq_true', List.isEmpty_eq_false_iff] at h
  exact hunf.ecdsa x a.timeStamp _ _ _ h.2.1 h.2.2

/-- The node whose key a certificate verifies under. -/
def certifier (cm : CryptoManager) (a : SessionCall) : NodeID :=
  if certifiedBy cm a a.nodeId.1 then a.nodeId.1 else a.nodeId.2

theorem certifier_spec (h : certified cm a = true) :
    certifier cm a ∈ signerNodes a ∧ certifiedBy cm a (certifier cm a) = true := by
  unfold certified at h
  unfold certifier signerNodes
  cases hfirst : certifiedBy cm a a.nodeId.1 with
  | true =>
    rw [if_pos rfl]
    refine ⟨?_, hfirst⟩
    split <;> exact List.mem_cons_self
  | false =>
    rw [if_neg Bool.false_ne_true]
    rw [hfirst, Bool.false_or, Bool.and_eq_true] at h
    have hsecond : a.nodeId.2 ≠ noNodeID := by simpa using h.1
    rw [if_neg hsecond]
    exact ⟨List.mem_cons_of_mem _ List.mem_cons_self, h.2⟩

theorem fst_mem_signerNodes (a : SessionCall) : a.nodeId.1 ∈ signerNodes a := by
  unfold signerNodes
  split <;> exact List.mem_cons_self

theorem eq_of_mem_signerNodes {x : NodeID} (h : x ∈ signerNodes a) :
    x = a.nodeId.1 ∨ x = a.nodeId.2 := by
  unfold signerNodes at h
  split at h
  · exact .inl (List.mem_singleton.mp h)
  · simpa using h

end Certified

/-! ### Which proofs are sound -/

/-- What the shares of a proof have verified. -/
def shareCalls (cm : CryptoManager) (d : DACall) : Except String (List SessionCall) := do
  let shares ← parseShares cm d.signature
  shares.entries.mapM (shareCall cm d)

/-- No node stands behind two shares. -/
def Apart (calls : List SessionCall) : Prop :=
  calls.Pairwise fun a b => ∀ x ∈ signerNodes a, x ∉ signerNodes b

/-- A certificate that is found in the cache, or that two shares carry, is good for the
nodes and the block of each share that carries it. -/
def NoneLent (cm : CryptoManager) (c : SessionCache) (calls : List SessionCall) : Prop :=
  ∀ a ∈ calls, ((c.get? a.pkSig).isSome = true ∨ ∃ b ∈ calls, b ≠ a ∧ b.pkSig = a.pkSig) →
    certified cm a = true

instance (calls : List SessionCall) : Decidable (Apart calls) :=
  inferInstanceAs (Decidable (calls.Pairwise _))

instance (cm : CryptoManager) (c : SessionCache) (calls : List SessionCall) :
    Decidable (NoneLent cm c calls) :=
  inferInstanceAs (Decidable (∀ a ∈ calls, _ → _))

section Sound
variable {cm : CryptoManager} {d : DACall}

/-- The shares are verified one after the other, each on the cache the ones before it
left. -/
theorem verifyShares_run_eq_ok (hsgx : cm.isSGXEnabled = true)
    (entries : List (SchainIndex × ConsensusEdDSASigShare)) (c c' : SessionCache)
    (h : (verifyShares cm d entries).run c = .ok () c') :
    ∃ calls, entries.mapM (shareCall cm d) = .ok calls ∧
      (Apart calls → NoneLent cm c calls →
        ∀ a ∈ calls, certified cm a = true ∧ cm.verifyEdDSA a.publicKey a.hash a.sig = true) := by
  induction entries generalizing c with
  | nil => exact ⟨[], rfl, fun _ _ a ha => absurd ha List.not_mem_nil⟩
  | cons entry rest ih =>
    unfold verifyShares at h
    cases hcall : shareCall cm d entry with
    | error e =>
      rw [hcall] at h
      cases h
    | ok a =>
      rw [hcall] at h
      obtain ⟨⟨⟩, mid, hverify, hrest⟩ := run_bind_eq_ok.mp h
      obtain ⟨-, hkey, hed, -⟩ := (verifySessionSigAndKey_run_eq_ok hsgx).mp hverify
      obtain ⟨calls, hcalls, hih⟩ := ih mid hrest
      refine ⟨a :: calls, by rw [List.mapM_cons, hcall, hcalls]; rfl, fun hapart hlent => ?_⟩
      obtain ⟨hhead, htail⟩ := List.pairwise_cons.mp hapart
      have hcert : certified cm a = true := by
        unfold keyAccepted at hkey
        cases hc : c.get? a.pkSig with
        | none =>
          rw [hc] at hkey
          exact hkey
        | some pk => exact hlent a List.mem_cons_self (.inl (by rw [hc]; rfl))
      -- What the first share left in the cache is its own certificate or was there before.
      have hlent' : NoneLent cm mid calls := by
        intro b hb hfound
        refine hlent b (List.mem_cons_of_mem a hb) ?_
        rcases hfound with hmid | ⟨b', hb', hne, hsame⟩
        · obtain ⟨pk, hpk⟩ := Option.isSome_iff_exists.mp hmid
          rw [← finalState_of_ok hverify] at hpk
          rcases of_get?_finalState hsgx hpk with hpk | ⟨hsame, -, -⟩
          · exact .inl (by rw [hpk]; rfl)
          · refine .inr ⟨a, List.mem_cons_self, ?_, hsame.symm⟩
            rintro rfl
            exact hhead a hb _ (fst_mem_signerNodes a) (fst_mem_signerNodes a)
        · exact .inr ⟨b', List.mem_cons_of_mem a hb', hne, hsame⟩
      intro b hb
      rcases List.mem_cons.mp hb with rfl | hb
      · exact ⟨hcert, hed⟩
      · exact hih htail hlent' b hb

theorem size_of_parseShares {mergedSig : Bytes}
    {shares : OrderedMap SchainIndex ConsensusEdDSASigShare}
    (h : parseShares cm mergedSig = .ok shares) :
    shares.size = getRequiredSigners cm.nodeCount := by
  unfold parseShares at h
  have h' := after_check h
  obtain ⟨parsed, hcount⟩ := after_bind h'
  by_cases hsize : parsed.size = getRequiredSigners cm.nodeCount
  · have hbne : (parsed.size != getRequiredSigners cm.nodeCount) = false := by simpa using hsize
    rw [hbne] at hcount
    cases hcount
    exact hsize
  · have hbne : (parsed.size != getRequiredSigners cm.nodeCount) = true := by simpa using hsize
    rw [hbne] at hcount
    cases hcount

/-- An accepted proof whose certificates are its signers' own, for signers apart, has the
signers it needs. -/
theorem genuine_of_returns {w : Signing} (hunf : Unforgeable cm w) (hsgx : cm.isSGXEnabled = true)
    {c : SessionCache} (hreturns : returns (verifyDAProofThresholdSig cm d) c = true)
    (hcover : ∀ calls, shareCalls cm d = .ok calls → Apart calls ∧ NoneLent cm c calls) :
    Genuine cm w d := by
  obtain ⟨⟨⟩, hrun⟩ := run_of_returns hreturns
  unfold verifyDAProofThresholdSig at hrun
  obtain ⟨⟨⟩, _, hcheck, hverify⟩ := run_bind_eq_ok.mp hrun
  obtain ⟨-, rfl⟩ := checkArgument_run_eq_ok.mp hcheck
  have hreal : cm.verifyRealSignatures = true := by
    unfold CryptoManager.verifyRealSignatures
    rw [hsgx, Bool.true_or]
  rw [hreal, if_pos rfl] at hverify
  cases hparse : parseShares cm d.signature with
  | error e =>
    rw [hparse] at hverify
    cases hverify
  | ok shares =>
    rw [hparse] at hverify
    obtain ⟨calls, hcalls, hsound⟩ :=
      verifyShares_run_eq_ok hsgx _ _ _ (run_adaptExcept_eq_ok.mp hverify)
    have hshares : shareCalls cm d = .ok calls := by
      unfold shareCalls
      rw [hparse]
      exact hcalls
    obtain ⟨hapart, hlent⟩ := hcover calls hshares
    obtain ⟨hlength, hmem⟩ := mapM_eq_ok hcalls
    have hgood := hsound hapart hlent
    refine ⟨(calls.map (certifier cm)).toFinset, ?_, fun x hx => ?_⟩
    · have hnodup : (calls.map (certifier cm)).Nodup := by
        refine List.Pairwise.map _ (fun _ _ h => h) (hapart.imp_of_mem fun {a b} ha hb hab => ?_)
        intro heq
        have hb' := (certifier_spec (hgood b hb).1).1
        rw [← heq] at hb'
        exact hab _ (certifier_spec (hgood a ha).1).1 hb'
      rw [List.toFinset_card_of_nodup hnodup, List.length_map, hlength]
      exact (size_of_parseShares hparse).ge
    · obtain ⟨a, ha, rfl⟩ := List.mem_map.mp (List.mem_toFinset.mp hx)
      obtain ⟨hcert, hed⟩ := hgood a ha
      obtain ⟨hnode, hby⟩ := certifier_spec hcert
      obtain ⟨entry, -, hentry⟩ := hmem a ha
      obtain ⟨ids, hids, hcall⟩ := bind_eq_ok.mp hentry
      cases hcall
      refine ⟨⟨entry.1, ids, hids, eq_of_mem_signerNodes hnode⟩, entry.2.publicKey, ?_, ?_⟩
      · exact certifies_of_certifiedBy hunf hsgx hby
      · exact hunf.eddsa _ _ _ hed

end Sound

/-! ### Histories of verifications -/

/-- A verification of a session signature, for whatever reason, or of a DA proof. -/
inductive Verification where
  | session (a : SessionCall)
  | daProof (d : DACall)

structure Verifier where
  cache : SessionCache
  accepted : List DACall

def verifications (cm : CryptoManager) : Machine Verifier Verification where
  initial := ⟨.empty, []⟩
  step
    | .session a, s => some {s with cache := finalState (verifySessionSigAndKey cm a) s.cache}
    | .daProof d, s => some
      { cache := finalState (verifyDAProofThresholdSig cm d) s.cache
        accepted :=
          if returns (verifyDAProofThresholdSig cm d) s.cache then d :: s.accepted
          else s.accepted }

/-- SGX is enabled, and the shares of a proof are certified by nodes of their own. -/
def Verification.Covered (cm : CryptoManager) : Verification → Verifier → Prop
  | .session _, _ => True
  | .daProof d, s => cm.isSGXEnabled = true ∧
    match shareCalls cm d with
    | .error _ => True
    | .ok calls => Apart calls ∧ NoneLent cm s.cache calls

instance (cm : CryptoManager) : ∀ e s, Decidable (Verification.Covered cm e s)
  | .session _, _ => inferInstanceAs (Decidable True)
  | .daProof d, s =>
    have : Decidable (match shareCalls cm d with
        | .error _ => True
        | .ok calls => Apart calls ∧ NoneLent cm s.cache calls) :=
      match shareCalls cm d with
      | .error _ => inferInstanceAs (Decidable True)
      | .ok _ => inferInstanceAs (Decidable (_ ∧ _))
    inferInstanceAs (Decidable (_ ∧ _))

/-- In a history of covered verifications every accepted DA proof is genuine. -/
theorem genuine_of_keeps {cm : CryptoManager} {w : Signing} (hunf : Unforgeable cm w)
    {events : List Verification} {s : Verifier} (hrun : (verifications cm).run events = some s)
    (hkeep : (verifications cm).Keeps (Verification.Covered cm) (verifications cm).initial events) :
    ∀ d ∈ s.accepted, Genuine cm w d := by
  refine Machine.run_invariant_of_keeps (P := fun s => ∀ d ∈ s.accepted, Genuine cm w d)
    hrun hkeep (fun d hd => absurd hd List.not_mem_nil) ?_
  intro e s s' ih hcover hstep
  cases e with
  | session a =>
    cases hstep
    exact ih
  | daProof d =>
    cases hstep
    obtain ⟨hsgx, hcalls⟩ := hcover
    intro d' hd'
    cases hreturns : returns (verifyDAProofThresholdSig cm d) s.cache with
    | false =>
      rw [hreturns] at hd'
      exact ih d' hd'
    | true =>
      rw [hreturns] at hd'
      rcases List.mem_cons.mp hd' with rfl | hd'
      · refine genuine_of_returns hunf hsgx hreturns fun calls hok => ?_
        rw [hok] at hcalls
        exact hcalls
      · exact ih d' hd'

/-- What was done, where `fourSigners` has these certificates and signatures. -/
def made (certificates signatures : List (Bytes × Hash)) : Signing where
  certifies nodeId blockID publicKey := nodeId ∈ [11, 12, 13, 14] ∧
    (letter nodeId, toHex (leBytes 8 blockID ++ publicKey)) ∈ certificates
  signs publicKey hash := (publicKey, hash) ∈ signatures

theorem unforgeable_fourSigners (certificates signatures : List (Bytes × Hash)) :
    Unforgeable (fourSigners certificates signatures) (made certificates signatures) where
  ecdsa x timeStamp publicKey blockID sig hkey h := by
    obtain ⟨hx, hletter⟩ := key_fourSigners hkey
    rw [hletter] at h
    exact ⟨hx, List.contains_iff_mem.mp ((Bool.and_eq_true _ _).mp h).1⟩
  eddsa publicKey hash sig h := List.contains_iff_mem.mp ((Bool.and_eq_true _ _).mp h).1

/-- A share for an index: the session key signs `h`, with the certificate of some node. -/
def shareText (index : SchainIndex) (nodeId : NodeID) : Bytes :=
  List.intercalate (textBytes ";") [textBytes (toString index), sessionKey ++ textBytes "h",
    sessionKey, letter nodeId ++ certificateHash 1]

/-- A proof for `h` with the certificates of these nodes for the indices 1 to 3. -/
def proofBy (nodeIds : List NodeID) : DACall where
  hash := textBytes "h"
  signature := List.intercalate (textBytes "*") (List.zipWith shareText [1, 2, 3] nodeIds)
  blockId := 1
  timeStamp := currentTimeStamp

/-- The certificates of some nodes for the session key, and its signature of `h`. -/
def certificatesOf (nodeIds : List NodeID) : List (Bytes × Hash) :=
  nodeIds.map fun nodeId => (letter nodeId, certificateHash 1)

def signatureOfH : List (Bytes × Hash) := [(sessionKey, textBytes "h")]

theorem genuine_proofBy :
    Genuine (fourSigners (certificatesOf [11, 12, 13]) signatureOfH)
      (made (certificatesOf [11, 12, 13]) signatureOfH) (proofBy [11, 12, 13]) := by
  obtain ⟨s, hrun, haccepted⟩ :
      ∃ s, (verifications (fourSigners (certificatesOf [11, 12, 13]) signatureOfH)).run
          [.daProof (proofBy [11, 12, 13])] = some s ∧ proofBy [11, 12, 13] ∈ s.accepted :=
    Machine.exists_run (by decide +kernel)
  exact genuine_of_keeps (unforgeable_fourSigners _ _) hrun (by decide +kernel) _ haccepted

/-- A sync node that verifies real signatures, of a chain in which nothing was signed. -/
def syncNode : CryptoManager := {fourSigners [] [] with isSGXEnabled := false, isSyncNode := true}

/-- One node's share, repeated under three indices, is a proof: after the first share its
certificate is in the cache. And a sync node accepts three shares that nobody made. -/
theorem proofBy_not_genuine :
    (Unforgeable (fourSigners (certificatesOf [11]) signatureOfH)
        (made (certificatesOf [11]) signatureOfH) ∧
      returns (verifyDAProofThresholdSig (fourSigners (certificatesOf [11]) signatureOfH)
        (proofBy [11, 11, 11])) .empty = true ∧
      ¬ Genuine (fourSigners (certificatesOf [11]) signatureOfH)
        (made (certificatesOf [11]) signatureOfH) (proofBy [11, 11, 11])) ∧
    (Unforgeable syncNode (made [] []) ∧ syncNode.verifyRealSignatures = true ∧
      returns (verifyDAProofThresholdSig syncNode (proofBy [11, 12, 13])) .empty = true ∧
      ¬ Genuine syncNode (made [] []) (proofBy [11, 12, 13])) := by
  refine ⟨⟨unforgeable_fourSigners _ _, by decide +kernel, ?_⟩,
    ⟨⟨fun _ _ _ _ _ _ h => (nomatch h), fun _ _ _ h => (nomatch h)⟩, rfl, by decide +kernel, ?_⟩⟩
  · rintro ⟨signers, hcard, hsigned⟩
    have honly : signers ⊆ {11} := by
      intro x hx
      obtain ⟨-, publicKey, ⟨hmem, hcert⟩, -⟩ := hsigned x hx
      have hletter : letter x = letter 11 := congrArg Prod.fst (List.mem_singleton.mp hcert)
      exact Finset.mem_singleton.mpr (letter_injective x hmem 11 (by decide) hletter)
    have hone : 3 ≤ 1 := hcard.trans (Finset.card_le_card honly)
    omega
  · rintro ⟨signers, hcard, hsigned⟩
    have hnone : signers ⊆ ∅ := by
      intro x hx
      obtain ⟨-, publicKey, -, hsign⟩ := hsigned x hx
      exact absurd hsign List.not_mem_nil
    have hzero : 3 ≤ 0 := hcard.trans (Finset.card_le_card hnone)
    omega

end SkaleConsensus.Crypto
