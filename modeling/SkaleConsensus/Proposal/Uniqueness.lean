import SkaleConsensus.Proposal.Effects
import SkaleConsensus.Library.Quorum

/-! One DA proof for a block and a proposer.

A node signs a DA share for the proposal of another node only if its hash is the one in
`ProposalHashDB`, which keeps the first hash it is given through failed requests and
restarts (`Pinned`). For its own index it signs what it proposed itself (`Own`), and
without a restart in between it makes one proposal for a block (`Once`). Two sets of
signers that are large enough for a proof share a correct node. -/
namespace SkaleConsensus.Proposal
open Library Block Crypto

section Node
variable {n : Node} {s s' : NodeState} {e : NodeEvent} {p : BlockProposal} {b : ℕ}

/-! ### Shares for the proposals of others -/

/-- The hash of a request, and of a share for another node's proposal, is the saved one. -/
structure Pinned (n : Node) (s : NodeState) : Prop where
  requests : ∀ h ∈ s.requests, s.proposalHashDB h.key = some h.hash
  signed : ∀ key hash, (key, hash) ∈ s.daSigned → key.blockProposerIndex ≠ n.me →
    s.proposalHashDB key = some (toHex hash)

theorem pinned_genesis : Pinned n .genesis where
  requests _ h := absurd h List.not_mem_nil
  signed _ _ h := absurd h List.not_mem_nil

theorem Pinned.signedFor (hs : Pinned n s) {h : BlockProposalRequestHeader}
    (hrequest : h ∈ s.requests) (hverify : p.verifyProposalECDSA n.cm h.hash h.signature = .ok ()) :
    Pinned n (signedFor n h p s) where
  requests h' hh' := hs.requests h' (List.mem_of_mem_erase hh')
  signed key hash hmem hother := by
    rcases List.mem_cons.mp hmem with heq | hmem
    · cases heq
      rw [BlockProposal.toHex_hash_of_verifyProposalECDSA hverify]
      exact hs.requests h hrequest
    · exact hs.signed key hash hmem hother

/-- No step forgets a saved hash or takes up another. -/
theorem Pinned.effect (hs : Pinned n s) (hown : AtOwn n s) (he : Effect n s e s') :
    Pinned n s' := by
  have kept : ∀ {db}, HashesKept s db → ∀ key hash, (key, hash) ∈ s.daSigned →
      key.blockProposerIndex ≠ n.me → db key = some (toHex hash) :=
    fun hkept key hash hmem hother => hkept _ _ (hs.signed key hash hmem hother)
  cases he with
  | same h =>
    obtain ⟨c, db, rfl⟩ := h
    exact ⟨hs.requests, hs.signed⟩
  | opened hhash hkept =>
    refine ⟨fun h hh => ?_, kept hkept⟩
    rcases List.mem_cons.mp hh with rfl | hh
    · exact hhash
    · exact hkept _ _ (hs.requests h hh)
  | closed => exact ⟨fun h hh => hs.requests h (List.mem_of_mem_erase hh), hs.signed⟩
  | accepted hrequest hreceived hverify hs' =>
    have hsigned := hs.signedFor hrequest hverify
    rcases hs' with rfl | rfl
    · exact hsigned
    · exact ⟨hsigned.requests, hsigned.signed⟩
  | saved hholder hkept => exact ⟨fun h hh => hkept _ _ (hs.requests h hh), kept hkept⟩
  | stored _ ht => rcases ht with rfl | rfl <;> exact ⟨hs.requests, hs.signed⟩
  | @signed p hholder =>
    refine ⟨hs.requests, fun key hash hmem hother => ?_⟩
    rcases List.mem_cons.mp hmem with heq | hmem
    · cases heq
      exact absurd (hown p (by rw [hholder]; rfl)) hother
    · exact hs.signed key hash hmem hother
  | committing | committed | found | built | gaveUp => exact ⟨hs.requests, hs.signed⟩
  | restarted => exact ⟨fun h hh => absurd hh List.not_mem_nil, hs.signed⟩

/-! ### Shares for own proposals -/

/-- This node made a proposal for the block with the hash. -/
def Made (n : Node) (s : NodeState) (blockID : ℕ) (hash : Hash) : Prop :=
  ∃ q ∈ s.proposed, q.blockID = blockID ∧ q.hash n.cm.blake3 = hash

/-- What this node has in its own name it made. -/
structure Own (n : Node) (s : NodeState) : Prop where
  signed : ∀ key hash, (key, hash) ∈ s.daSigned → key.blockProposerIndex = n.me →
    Made n s key.blockID hash
  slot : ∀ p, s.proposalCaches.slot n.me = some p → Made n s p.blockID (p.hash n.cm.blake3)
  db : ∀ b p, s.proposalDB b = some p → Made n s p.blockID (p.hash n.cm.blake3)
  holder : ∀ p ∈ s.holder.proposal?, Made n s p.blockID (p.hash n.cm.blake3)

theorem own_genesis : Own n .genesis where
  signed _ _ h := absurd h List.not_mem_nil
  slot _ h := nomatch h
  db _ _ h := nomatch h
  holder _ h := nomatch h

/-- The ECDSA key of the node signs nothing but what the node proposes: a request in its
name with a good signature has the content of one of its proposals. -/
def OwnSignature (n : Node) (s : NodeState) : NodeEvent → Prop
  | .finish h transactions => ∀ p, receivedBlockProposal n h transactions = .ok p →
    p.verifyProposalECDSA n.cm h.hash h.signature = .ok () → p.proposerIndex = n.me →
    ∃ q ∈ s.proposed, q.hashInput n.cm.blake3 = p.hashInput n.cm.blake3
  | _ => True

theorem made_of_hashInput
    (h : ∃ q ∈ s.proposed, q.hashInput n.cm.blake3 = p.hashInput n.cm.blake3) :
    Made n s p.blockID (p.hash n.cm.blake3) := by
  obtain ⟨q, hq, hinput⟩ := h
  exact ⟨q, hq, ProposalFields.blockID_eq_of_hashInput q.fits p.fits hinput,
    congrArg n.cm.blake3 hinput⟩

theorem Own.stored (hs : Own n s)
    (hp : p.proposerIndex = n.me → Made n s p.blockID (p.hash n.cm.blake3)) :
    Own n (stored n p s) where
  signed := hs.signed
  holder := hs.holder
  slot q hq := by
    rcases slot_of_stored hq with hold | ⟨rfl, hme⟩
    · exact hs.slot q hold
    · exact hp hme
  db b q hq := by
    unfold Proposal.stored at hq
    dsimp only at hq
    split_ifs at hq with hme
    · by_cases hb : b = p.blockID
      · rw [hb, Function.update_self] at hq
        rcases Option.or_eq_some_iff.mp hq with hold | ⟨-, hnew⟩
        · exact hs.db _ q hold
        · cases hnew
          exact hp hme
      · rw [Function.update_of_ne hb] at hq
        exact hs.db b q hq
    · exact hs.db b q hq

theorem Own.effect (hs : Own n s) (hown : AtOwn n s) (hsig : OwnSignature n s e)
    (he : Effect n s e s') : Own n s' := by
  cases he with
  | same h =>
    obtain ⟨c, db, rfl⟩ := h
    exact ⟨hs.signed, hs.slot, hs.db, hs.holder⟩
  | opened | closed => exact ⟨hs.signed, hs.slot, hs.db, hs.holder⟩
  | @accepted h transactions p _ hrequest hreceived hverify hs' =>
    have hmade : p.proposerIndex = n.me → Made n s p.blockID (p.hash n.cm.blake3) :=
      fun hme => made_of_hashInput (hsig p hreceived hverify hme)
    obtain ⟨hblock, hindex⟩ := of_receivedBlockProposal hreceived
    have hsigned : Own n (signedFor n h p s) := by
      refine ⟨fun key hash hmem hme => ?_, hs.slot, hs.db, hs.holder⟩
      rcases List.mem_cons.mp hmem with heq | hmem
      · cases heq
        rw [BlockProposalRequestHeader.key, ← hblock]
        exact hmade (hindex.trans hme)
      · exact hs.signed key hash hmem hme
    rcases hs' with rfl | rfl
    · exact hsigned
    · exact hsigned.stored hmade
  | committing =>
    exact ⟨hs.signed, fun p hp => hs.slot p (ProposalCaches.slot_of_cleanup hp), hs.db,
      fun p hp => (nomatch hp)⟩
  | committed | gaveUp => exact ⟨hs.signed, hs.slot, hs.db, fun p hp => (nomatch hp)⟩
  | found hholder hget =>
    refine ⟨hs.signed, hs.slot, hs.db, fun p hp => ?_⟩
    cases hp
    rcases of_getBlockProposal hget with ⟨hslot, -⟩ | ⟨-, hdb⟩
    · exact hs.slot _ hslot
    · exact hs.db _ _ hdb
  | @built d p hholder hmake =>
    have hmore : ∀ {b hash}, Made n s b hash →
        Made n {s with proposed := p :: s.proposed, holder := .built p} b hash :=
      fun ⟨q, hq, hspec⟩ => ⟨q, List.mem_cons_of_mem p hq, hspec⟩
    refine ⟨fun key hash hmem hme => hmore (hs.signed key hash hmem hme),
      fun p hp => hmore (hs.slot p hp), fun b p hp => hmore (hs.db b p hp), fun p hp => ?_⟩
    cases hp
    exact ⟨p, List.mem_cons_self, rfl, rfl⟩
  | @stored p t _ hholder ht hnext =>
    have ht' : Own n t ∧ t.holder = .built p := by
      rcases ht with rfl | rfl
      · exact And.intro hs hholder
      · exact And.intro (hs.stored fun _ => hs.holder p (by rw [hholder]; rfl)) hholder
    refine ⟨ht'.1.signed, ht'.1.slot, ht'.1.db, fun q hq => ?_⟩
    rcases hnext with rfl | rfl
    · exact ht'.1.holder q (by rw [ht'.2]; exact hq)
    · cases hq
  | saved hholder =>
    exact ⟨hs.signed, hs.slot, hs.db, fun p hp => hs.holder p (by rw [hholder]; exact hp)⟩
  | @signed p hholder =>
    refine ⟨fun key hash hmem hme => ?_, hs.slot, hs.db, fun p hp => (nomatch hp)⟩
    rcases List.mem_cons.mp hmem with heq | hmem
    · cases heq
      exact hs.holder p (by rw [hholder]; rfl)
    · exact hs.signed key hash hmem hme
  | restarted => exact ⟨hs.signed, fun p hp => (nomatch hp), hs.db, fun p hp => (nomatch hp)⟩

/-- For block `b` at most one proposal was made, and none before `proposeNextBlock` runs
for it. -/
structure Once (b : ℕ) (s : NodeState) : Prop where
  le : ∀ q ∈ s.proposed, q.blockID ≤ s.lastCommittedBlockID + 1
  pushing : ∀ block, s.holder = .pushing block → block.blockID = s.lastCommittedBlockID + 1
  fresh : s.holder = .proposing → s.lastCommittedBlockID + 1 = b → ∀ q ∈ s.proposed, q.blockID ≠ b
  unique : ∀ q ∈ s.proposed, ∀ q' ∈ s.proposed, q.blockID = b → q'.blockID = b → q = q'

theorem once_genesis (b : ℕ) : Once b .genesis where
  le _ h := absurd h List.not_mem_nil
  pushing _ h := nomatch h
  fresh _ _ _ h := absurd h List.not_mem_nil
  unique _ h := absurd h List.not_mem_nil

/-- The holder of the mutex leaves a commit and is not about to propose. -/
theorem Once.leave (hs : Once b s) (hproposed : s'.proposed = s.proposed)
    (hlast : s'.lastCommittedBlockID = s.lastCommittedBlockID)
    (hholder : s'.holder = s.holder ∨ s'.holder ≠ .proposing ∧ ∀ block, s'.holder ≠ .pushing block)
    : Once b s' where
  le := by
    rw [hproposed, hlast]
    exact hs.le
  pushing block hpushing := by
    rw [hlast]
    rcases hholder with hsame | ⟨-, hnot⟩
    · exact hs.pushing block (hsame ▸ hpushing)
    · exact absurd hpushing (hnot block)
  fresh hproposing hb := by
    rw [hlast] at hb
    rw [hproposed]
    rcases hholder with hsame | ⟨hnot, -⟩
    · exact hs.fresh (hsame ▸ hproposing) hb
    · exact absurd hproposing hnot
  unique := by
    rw [hproposed]
    exact hs.unique

/-- After a commit the node is past every block it proposed for. -/
theorem Once.next (hs : Once b s) (hproposed : s'.proposed = s.proposed)
    (hlast : s'.lastCommittedBlockID = s.lastCommittedBlockID + 1)
    (hholder : s'.holder = .proposing) : Once b s' where
  le q hq := by
    rw [hproposed] at hq
    have := hs.le q hq
    omega
  pushing block hpushing := by
    rw [hholder] at hpushing
    cases hpushing
  fresh _ hb q hq := by
    rw [hproposed] at hq
    have := hs.le q hq
    omega
  unique := by
    rw [hproposed]
    exact hs.unique

theorem Once.effect (hs : Once b s) (hrestart : e = .restart → s.lastCommittedBlockID + 1 ≠ b)
    (he : Effect n s e s') :
    Once b s' := by
  cases he with
  | same h =>
    obtain ⟨c, db, rfl⟩ := h
    exact hs.leave rfl rfl (.inl rfl)
  | opened | closed => exact hs.leave rfl rfl (.inl rfl)
  | accepted _ _ _ hs' => rcases hs' with rfl | rfl <;> exact hs.leave rfl rfl (.inl rfl)
  | found | saved | signed | gaveUp => exact hs.leave rfl rfl (.inr ⟨nofun, nofun⟩)
  | stored _ ht hnext =>
    rcases ht with rfl | rfl <;> rcases hnext with rfl | rfl <;>
      exact hs.leave rfl rfl (.inr ⟨nofun, nofun⟩)
  | @committing block _ hnext =>
    refine ⟨hs.le, fun block' hblock' => ?_, nofun, hs.unique⟩
    cases hblock'
    exact hnext
  | committed hholder => exact hs.next rfl (hs.pushing _ hholder) rfl
  | @built d p hholder hmake =>
    obtain ⟨hblock, -⟩ := of_myBlockProposal hmake
    have hnew : ∀ q ∈ s.proposed, q.blockID = b → p.blockID ≠ b :=
      fun q hq hqb hpb => hs.fresh hholder (hblock ▸ hpb) q hq hqb
    refine ⟨fun q hq => ?_, nofun, nofun, fun q hq q' hq' hb hb' => ?_⟩
    · rcases List.mem_cons.mp hq with rfl | hq
      · exact hblock.le
      · exact hs.le q hq
    · rcases List.mem_cons.mp hq with rfl | hold <;> rcases List.mem_cons.mp hq' with rfl | hold'
      · rfl
      · exact absurd hb (hnew q' hold' hb')
      · exact absurd hb' (hnew q hold hb)
      · exact hs.unique q hold q' hold' hb hb'
  | restarted hlast =>
    rcases hlast with ⟨rfl, -⟩ | ⟨block, hholder, rfl⟩
    · exact ⟨hs.le, nofun, fun _ hb => absurd hb (hrestart rfl), hs.unique⟩
    · exact hs.next rfl (hs.pushing block hholder) rfl

/-- A node never makes DA shares for two hashes of one block and proposer, if the proposer
is another node or it makes one proposal for the block. -/
theorem daSigned_unique (hpinned : Pinned n s) (hown : Own n s) {key : ProtocolKey}
    (honce : key.blockProposerIndex = n.me → Once key.blockID s) {hash hash' : Hash}
    (h : (key, hash) ∈ s.daSigned) (h' : (key, hash') ∈ s.daSigned) : hash = hash' := by
  by_cases hme : key.blockProposerIndex = n.me
  · obtain ⟨q, hq, hblock, rfl⟩ := hown.signed key hash h hme
    obtain ⟨q', hq', hblock', rfl⟩ := hown.signed key hash' h' hme
    rw [(honce hme).unique q hq q' hq' hblock hblock']
  · have hsaved := hpinned.signed key hash h hme
    rw [hpinned.signed key hash' h' hme] at hsaved
    exact (toHex_injective (Option.some.inj hsaved)).symm

end Node

/-! ### The chain -/

/-- Fewer than a third of the nodes are Byzantine. -/
structure Chain where
  nodeCount : ℕ
  byzantine : Finset SchainIndex
  few : 3 * byzantine.card < nodeCount
  node : SchainIndex → Node
  me_eq : ∀ i, (node i).me = i
  nodeCount_eq : ∀ i, (node i).cm.nodeCount = nodeCount

namespace Chain
variable (c : Chain)

/-- A good signature on a proposal of a correct node was made by that node, for the content
of one of its proposals. -/
def Authentic (s : SchainIndex → NodeState) (i : SchainIndex) : NodeEvent → Prop
  | .finish h transactions =>
    match receivedBlockProposal (c.node i) h transactions with
    | .error _ => True
    | .ok p => (p.verifyProposalECDSA (c.node i).cm h.hash h.signature).isOk = true →
      p.proposerIndex ∉ c.byzantine →
      ∃ q ∈ (s p.proposerIndex).proposed,
        q.hashInput (c.node i).cm.blake3 = p.hashInput (c.node i).cm.blake3
  | _ => True

instance (s : SchainIndex → NodeState) (i : SchainIndex) :
    ∀ e, Decidable (c.Authentic s i e)
  | .finish h transactions =>
    have : Decidable (match receivedBlockProposal (c.node i) h transactions with
        | .error _ => True
        | .ok p => (p.verifyProposalECDSA (c.node i).cm h.hash h.signature).isOk = true →
          p.proposerIndex ∉ c.byzantine →
          ∃ q ∈ (s p.proposerIndex).proposed,
            q.hashInput (c.node i).cm.blake3 = p.hashInput (c.node i).cm.blake3) :=
      match receivedBlockProposal (c.node i) h transactions with
      | .error _ => inferInstanceAs (Decidable True)
      | .ok _ => inferInstanceAs (Decidable (_ → _))
    this
  | .request .. | .drop _ | .daProof _ | .merged .. | .catchup _ | .pushed | .build _ | .store
  | .save | .sign | .abort | .restart => inferInstanceAs (Decidable True)

/-- The correct nodes, each at its own pace; whatever the others send is in the events. -/
def machine : Machine (SchainIndex → NodeState) (SchainIndex × NodeEvent) where
  initial _ := .genesis
  step event s :=
    if event.1 ∉ c.byzantine ∧ c.Authentic s event.1 event.2 then
      (nodeStep (c.node event.1) event.2 (s event.1)).map (Function.update s event.1)
    else none

/-- A proof for the hash can be made: as many nodes as it takes, of which the correct ones
made a share for it. -/
def DAProven (s : SchainIndex → NodeState) (b : ℕ) (p : SchainIndex) (hash : Hash) : Prop :=
  ∃ signers ⊆ Finset.Icc 1 c.nodeCount, getRequiredSigners c.nodeCount ≤ signers.card ∧
    ∀ i ∈ signers, i ∉ c.byzantine → (⟨b, p⟩, hash) ∈ (s i).daSigned

/-- Node `p` does not restart while it is at block `b`. -/
def NoRestart (p : SchainIndex) (b : ℕ) (event : SchainIndex × NodeEvent)
    (s : SchainIndex → NodeState) : Prop :=
  match event.2 with
  | .restart => event.1 = p → (s p).lastCommittedBlockID + 1 ≠ b
  | _ => True

instance (p : SchainIndex) (b : ℕ) : ∀ event s, Decidable (NoRestart p b event s)
  | (_, .restart), _ => inferInstanceAs (Decidable (_ → _))
  | (_, .request ..), _ | (_, .finish ..), _ | (_, .drop _), _ | (_, .daProof _), _
  | (_, .merged ..), _ | (_, .catchup _), _ | (_, .pushed), _ | (_, .build _), _ | (_, .store), _
  | (_, .save), _ | (_, .sign), _ | (_, .abort), _ => inferInstanceAs (Decidable True)

variable {c} {events : List (SchainIndex × NodeEvent)} {s : SchainIndex → NodeState}

/-- What the steps of a correct node preserve holds of every node in every run. -/
theorem forall_of_keeps {P : SchainIndex → NodeState → Prop}
    {C : SchainIndex × NodeEvent → (SchainIndex → NodeState) → Prop}
    (hrun : c.machine.run events = some s) (hkeeps : c.machine.Keeps C c.machine.initial events)
    (hinit : ∀ i, P i .genesis)
    (hstep : ∀ i e (s : SchainIndex → NodeState) t, P i (s i) → C (i, e) s → i ∉ c.byzantine →
      c.Authentic s i e → Effect (c.node i) (s i) e t → P i t) :
    ∀ i, P i (s i) := by
  refine Machine.run_invariant_of_keeps (P := fun s => ∀ i, P i (s i)) hrun hkeeps hinit ?_
  rintro ⟨i, e⟩ s s' hP hC hs' j
  unfold machine at hs'
  dsimp only at hs'
  split_ifs at hs' with hguard
  obtain ⟨t, ht, rfl⟩ := Option.map_eq_some_iff.mp hs'
  rcases eq_or_ne j i with rfl | hne
  · rw [Function.update_self]
    exact hstep j e s t (hP j) hC hguard.1 hguard.2 (effect_of_nodeStep ht)
  · rw [Function.update_of_ne hne]
    exact hP j

theorem ownSignature_of_authentic {i : SchainIndex} {e : NodeEvent} (hi : i ∉ c.byzantine)
    (h : c.Authentic s i e) : OwnSignature (c.node i) (s i) e := by
  cases e with
  | finish hd transactions =>
    intro p hreceived hverify hme
    rw [c.me_eq i] at hme
    dsimp only [Authentic] at h
    rw [hreceived] at h
    dsimp only at h
    rw [hverify, hme] at h
    exact h rfl hi
  | _ => trivial

theorem pinned_and_own (hrun : c.machine.run events = some s) (i : SchainIndex) :
    AtOwn (c.node i) (s i) ∧ Pinned (c.node i) (s i) ∧ Own (c.node i) (s i) :=
  forall_of_keeps (P := fun i s => AtOwn (c.node i) s ∧ Pinned (c.node i) s ∧ Own (c.node i) s)
    hrun (Machine.keeps_of_forall (C := fun _ _ => True) (fun _ _ _ => trivial) _)
    (fun _ => ⟨fun _ h => (nomatch h), pinned_genesis, own_genesis⟩)
    (fun _ _ _ _ hs _ hi hauth he =>
      ⟨hs.1.effect he, hs.2.1.effect hs.1 he,
        hs.2.2.effect hs.1 (ownSignature_of_authentic hi hauth) he⟩) i

theorem once_of_noRestart {p : SchainIndex} {b : ℕ} (hrun : c.machine.run events = some s)
    (hkeeps : c.machine.Keeps (NoRestart p b) c.machine.initial events) : Once b (s p) := by
  refine forall_of_keeps (P := fun i s => i = p → Once b s) hrun hkeeps
    (fun i _ => once_genesis b) ?_ p rfl
  rintro i e s t hs hno - - he rfl
  refine (hs rfl).effect ?_ he
  rintro rfl
  exact hno rfl

/-- There are never two hashes for which a proof can be made, if the proposer is Byzantine
or does not restart during the block. -/
theorem daProven_unique (hrun : c.machine.run events = some s) {b : ℕ} {p : SchainIndex}
    (hp : p ∈ c.byzantine ∨ c.machine.Keeps (NoRestart p b) c.machine.initial events)
    {hash hash' : Hash} (h : c.DAProven s b p hash) (h' : c.DAProven s b p hash') :
    hash = hash' := by
  obtain ⟨signers, hsub, hcard, hsigned⟩ := h
  obtain ⟨signers', hsub', hcard', hsigned'⟩ := h'
  have hmany :
      (Finset.Icc 1 c.nodeCount).card + c.byzantine.card < signers.card + signers'.card := by
    rw [Nat.card_Icc]
    have := lt_two_mul_getRequiredSigners c.few
    omega
  obtain ⟨i, hi, hi', hcorrect⟩ := Quorum.exists_common hsub hsub' hmany
  obtain ⟨-, hpinned, hown⟩ := pinned_and_own hrun i
  refine daSigned_unique hpinned hown (fun hme => ?_) (hsigned i hi hcorrect)
    (hsigned' i hi' hcorrect)
  rw [c.me_eq i] at hme
  obtain rfl : p = i := hme
  exact once_of_noRestart hrun (hp.resolve_left hcorrect)

end Chain

/-! ### Four nodes -/

def firstFields (i : SchainIndex) : ProposalFields where
  schainID := 1
  proposerNodeID := 10 + i
  blockID := 1
  proposerIndex := i
  transactionList := []
  stateRoot := 0
  timeStamp := MODERN_TIME + 1
  timeStampMs := 0
  signature := letter (10 + i) ++ hash
where
  hash : Hash := ProposalFields.hash ⟨1, 10 + i, 1, i, [], 0, MODERN_TIME + 1, 0, []⟩ toHex

def firstDraft (i : SchainIndex) : Draft :=
  ⟨[], 0, ⟨MODERN_TIME + 1, 0⟩, (firstFields i).signature⟩

def firstRequest (i : SchainIndex) : BlockProposalRequestHeader where
  schainID := 1
  blockID := 1
  proposerIndex := i
  proposerNodeID := 10 + i
  timeStamp := MODERN_TIME + 1
  timeStampMs := 0
  hash := toHex (firstFields.hash i)
  signature := (firstFields i).signature
  txCount := 0
  stateRoot := 0

theorem three_mul_card_lt_four : 3 * ({4} : Finset SchainIndex).card < 4 := by decide

def fourNodes : Chain where
  nodeCount := 4
  byzantine := {4}
  few := three_mul_card_lt_four
  node i :=
    {Node.ofFour with
      cm := fourSigners ([1, 2, 3].map fun j => (letter (10 + j), firstFields.hash j)) []
      me := i}
  me_eq _ := rfl
  nodeCount_eq _ := rfl

/-- Node 1 proposes; nodes 2 and 3 propose, read its request and sign. -/
def firstRound : List (SchainIndex × NodeEvent) :=
  [(1, .build (firstDraft 1)), (1, .store), (1, .save), (1, .sign)] ++
    [2, 3].flatMap fun i =>
      [(i, .build (firstDraft i)), (i, .store),
        (i, .request (firstRequest 1).addFields (MODERN_TIME + 1)),
        (i, .finish (firstRequest 1) [])]

theorem daProven_firstRound : ∃ s, fourNodes.machine.run firstRound = some s ∧
    fourNodes.DAProven s 1 1 (firstFields.hash 1) ∧
    ∀ hash, fourNodes.DAProven s 1 1 hash → hash = firstFields.hash 1 := by
  obtain ⟨s, hrun, hsigned⟩ : ∃ s, fourNodes.machine.run firstRound = some s ∧
      ∀ i ∈ ([1, 2, 3] : List SchainIndex), ((⟨1, 1⟩ : ProtocolKey), firstFields.hash 1) ∈
        (s i).daSigned :=
    Machine.exists_run (by decide +kernel)
  have hproven : fourNodes.DAProven s 1 1 (firstFields.hash 1) := by
    refine ⟨{1, 2, 3}, by decide, by decide, fun i hi _ => hsigned i ?_⟩
    simpa using hi
  refine ⟨s, hrun, hproven, fun hash hhash => ?_⟩
  exact Chain.daProven_unique hrun (.inr (by decide +kernel)) hhash hproven

end SkaleConsensus.Proposal
