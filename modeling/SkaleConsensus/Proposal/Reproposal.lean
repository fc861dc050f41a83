import SkaleConsensus.Proposal.Uniqueness

/-! Proposing again after a crash.

`proposeNextBlock` stores its proposal, then saves its hash, then enqueues the proposal
and signs it. A node that is restarted proposes again: what is in LevelDB if the hash was
saved, something new if not. LevelDB keeps the first proposal of a block. So after a crash
between the two writes the proposal that is in LevelDB is not the one that is enqueued,
and the next restart finds it there. Without a crash at that point everything that leaves
the node for a block has the hash of the proposal in LevelDB (`InDB`). -/
namespace SkaleConsensus.Proposal
open Library Block Crypto

/-! ### The calls of `proposeNextBlock` -/

/-- A node and what its calls of `proposeNextBlock` did. The lists are not in the code. -/
structure Proposer where
  node : NodeState
  /-- The proposal at hand was given to `blockProposalClient`. -/
  enqueued : Bool
  stored : List BlockProposal
  /-- The proposals that were enqueued or signed. -/
  issued : List BlockProposal

inductive ProposerEvent where
  | node (e : NodeEvent)
  | enqueue

section Step
variable (n : Node)

/-- A good signature of this node is on the content of a proposal that it stored: from the
stores a proposal can leave the node. What it signs for itself it has enqueued. -/
def Proposer.Allowed (w : Proposer) : NodeEvent → Prop
  | .finish h transactions => ∀ p ∈ (receivedBlockProposal n h transactions).toOption,
    (p.verifyProposalECDSA n.cm h.hash h.signature).isOk = true → p.proposerIndex = n.me →
    ∃ q ∈ w.stored, q.hashInput n.cm.blake3 = p.hashInput n.cm.blake3
  | .sign => w.enqueued = true
  | _ => True

instance (w : Proposer) : ∀ e, Decidable (w.Allowed n e)
  | .finish h transactions =>
    inferInstanceAs (Decidable (∀ p ∈ (receivedBlockProposal n h transactions).toOption, _))
  | .sign => inferInstanceAs (Decidable (w.enqueued = true))
  | .request .. | .drop _ | .daProof _ | .merged .. | .catchup _ | .pushed | .build _ | .store
  | .save | .abort | .restart => inferInstanceAs (Decidable True)

def storedAfter (stored : List BlockProposal) : NodeEvent → Holder → List BlockProposal
  | .store, .stored p => p :: stored
  | _, _ => stored

def issuedAfter (issued : List BlockProposal) : NodeEvent → Holder → List BlockProposal
  | .sign, .saved p => p :: issued
  | _, _ => issued

def proposerStep : ProposerEvent → Proposer → Option Proposer
  | .node e, w =>
    if w.Allowed n e then
      (nodeStep n e w.node).map fun s => {
        node := s
        enqueued := w.enqueued && decide (s.holder = w.node.holder)
        stored := storedAfter w.stored e s.holder
        issued := issuedAfter w.issued e w.node.holder }
    else none
  | .enqueue, w =>
    match w.node.holder, w.enqueued with
    | .saved p, false => some {w with enqueued := true, issued := p :: w.issued}
    | _, _ => none

/-- A node from its first start on. -/
def proposer : Machine Proposer ProposerEvent where
  initial := ⟨.genesis, false, [], []⟩
  step := proposerStep n

end Step

/-! ### What is in LevelDB -/

variable {n : Node} {s s' : NodeState} {e : NodeEvent} {p : BlockProposal} {holder : Holder}

/-- LevelDB has a proposal for the block of `p`, with the hash of `p`. -/
def InDB (n : Node) (s : NodeState) (p : BlockProposal) : Prop :=
  ∃ q, s.proposalDB p.blockID = some q ∧ q.hash n.cm.blake3 = p.hash n.cm.blake3

theorem proposalDB_stored_of_inDB (h : p.proposerIndex = n.me → InDB n s p) :
    (stored n p s).proposalDB = s.proposalDB := by
  unfold stored
  dsimp only
  split_ifs with hme
  · obtain ⟨q, hq, -⟩ := h hme
    rw [hq, Option.some_or, ← hq, Function.update_eq_self]
  · rfl

theorem proposalDB_stored {q : BlockProposal} {b : ℕ} (h : s.proposalDB b = some q) :
    (stored n p s).proposalDB b = some q := by
  unfold stored
  dsimp only
  split_ifs
  · rcases eq_or_ne b p.blockID with rfl | hne
    · rw [Function.update_self, h, Option.some_or]
    · rw [Function.update_of_ne hne, h]
  · exact h

/-- LevelDB keeps what it has. -/
theorem InDB.effect (h : InDB n s p) (he : Effect n s e s') : InDB n s' p := by
  obtain ⟨q, hq, hhash⟩ := h
  refine ⟨q, ?_, hhash⟩
  cases he with
  | same hsame =>
    obtain ⟨c, db, rfl⟩ := hsame
    exact hq
  | accepted _ _ _ hs' =>
    rcases hs' with rfl | rfl
    · exact hq
    · exact proposalDB_stored hq
  | stored _ ht =>
    rcases ht with rfl | rfl
    · exact hq
    · exact proposalDB_stored hq
  | opened | closed | committing | committed | found | built | saved | signed | gaveUp
  | restarted => exact hq

/-- The calls of `proposeNextBlock` keep to what LevelDB has for the next block, and a call
that finds no hash finds LevelDB empty. -/
structure Single (n : Node) (s : NodeState) : Prop where
  le : ∀ b p, s.proposalDB b = some p → b ≤ s.lastCommittedBlockID + 1
  slot : ∀ p, s.proposalCaches.slot n.me = some p → InDB n s p
  built : ∀ p, s.holder = .built p → p.blockID = s.lastCommittedBlockID + 1 ∧
    (InDB n s p ∨ s.proposalDB p.blockID = none)
  passed : ∀ p, s.holder = .stored p ∨ s.holder = .saved p → InDB n s p
  fresh : s.holder = .proposing → (s.proposalDB (s.lastCommittedBlockID + 1)).isSome = true →
    (s.proposalHashDB ⟨s.lastCommittedBlockID + 1, n.me⟩).isSome = true

theorem single_genesis : Single n .genesis := ⟨nofun, nofun, nofun, nofun, nofun⟩

/-- A restart does not come between the proposal's and the hash's write. -/
def HashRecorded (n : Node) (s : NodeState) : Prop :=
  (∀ block, s.holder ≠ .pushing block) →
    (s.proposalDB (s.lastCommittedBlockID + 1)).isSome = true →
    (s.proposalHashDB ⟨s.lastCommittedBlockID + 1, n.me⟩).isSome = true

/-- Nothing that the proposer's calls look at has changed. -/
theorem Single.of_eq (hs : Single n s) (hdb : s'.proposalDB = s.proposalDB)
    (hlast : s'.lastCommittedBlockID = s.lastCommittedBlockID)
    (hslot : ∀ p, s'.proposalCaches.slot n.me = some p → InDB n s p)
    (hholder : s'.holder = s.holder) (hhashes : HashesKept s s'.proposalHashDB) : Single n s' := by
  have hin : ∀ {p}, InDB n s p → InDB n s' p := fun ⟨q, hq, hhash⟩ => ⟨q, hdb ▸ hq, hhash⟩
  refine ⟨?_, fun p hp => hin (hslot p hp), ?_, ?_, ?_⟩
  · rw [hdb, hlast]
    exact hs.le
  · rw [hdb, hlast, hholder]
    exact fun p hp => ⟨(hs.built p hp).1, (hs.built p hp).2.imp_left hin⟩
  · rw [hholder]
    exact fun p hp => hin (hs.passed p hp)
  · rw [hdb, hlast, hholder]
    intro hproposing hsome
    obtain ⟨hash, hhash⟩ := Option.isSome_iff_exists.mp (hs.fresh hproposing hsome)
    exact Option.isSome_iff_exists.mpr ⟨hash, hhashes _ _ hhash⟩

/-- The mutex is left, or taken to push a block. -/
theorem Single.leave (hs : Single n s) (hdb : s'.proposalDB = s.proposalDB)
    (hlast : s'.lastCommittedBlockID = s.lastCommittedBlockID)
    (hslot : ∀ p, s'.proposalCaches.slot n.me = some p → InDB n s p)
    (hholder : s'.holder = .nobody ∨ ∃ block, s'.holder = .pushing block) : Single n s' := by
  have hnone : s'.holder ≠ .proposing ∧ s'.holder.proposal? = none := by
    rcases hholder with h | ⟨block, h⟩ <;>
    · rw [h]
      exact ⟨nofun, rfl⟩
  refine ⟨?_, fun p hp => ?_, fun p hp => ?_, fun p hp => ?_, fun hp => absurd hp hnone.1⟩
  · rw [hdb, hlast]
    exact hs.le
  · obtain ⟨q, hq, hhash⟩ := hslot p hp
    exact ⟨q, hdb ▸ hq, hhash⟩
  · rw [hp] at hnone
    cases hnone.2
  · rcases hp with hp | hp <;>
    · rw [hp] at hnone
      cases hnone.2

/-- After a commit LevelDB has nothing for the next block. -/
theorem Single.next (hs : Single n s) (hdb : s'.proposalDB = s.proposalDB)
    (hlast : s'.lastCommittedBlockID = s.lastCommittedBlockID + 1)
    (hslot : ∀ p, s'.proposalCaches.slot n.me = some p → InDB n s p)
    (hholder : s'.holder = .proposing) : Single n s' := by
  refine ⟨fun b p hp => ?_, fun p hp => ?_, fun p hp => ?_, fun p hp => ?_, fun _ hsome => ?_⟩
  · have := hs.le b p (hdb ▸ hp)
    omega
  · obtain ⟨q, hq, hhash⟩ := hslot p hp
    exact ⟨q, hdb ▸ hq, hhash⟩
  · rw [hholder] at hp
    cases hp
  · rw [hholder] at hp
    rcases hp with hp | hp <;> cases hp
  · obtain ⟨p, hp⟩ := Option.isSome_iff_exists.mp hsome
    have := hs.le _ p (hdb ▸ hp)
    omega

theorem Single.stored (hs : Single n s) (hheld : s.holder = .built p) (hme : p.proposerIndex = n.me)
    (hnext : holder = .stored p ∨ holder = .nobody) :
    Single n {Proposal.stored n p s with holder := holder} := by
  obtain ⟨hblock, hdb⟩ := hs.built p hheld
  have hin : InDB n (Proposal.stored n p s) p := by
    rcases hdb with ⟨q, hq, hhash⟩ | hnone
    · exact ⟨q, proposalDB_stored hq, hhash⟩
    · refine ⟨p, ?_, rfl⟩
      unfold Proposal.stored
      dsimp only
      rw [if_pos hme, Function.update_self, hnone, Option.none_or]
  refine ⟨fun b q hq => ?_, fun q hq => ?_, fun q hq => ?_, fun q hq => ?_, fun hq => ?_⟩
  · show b ≤ s.lastCommittedBlockID + 1
    rcases hdb with hdb | hnone
    · exact hs.le b q ((congrFun (proposalDB_stored_of_inDB fun _ => hdb) b).symm.trans hq)
    · rcases eq_or_ne b p.blockID with rfl | hne
      · exact hblock.le
      · refine hs.le b q (Eq.trans ?_ hq)
        unfold Proposal.stored
        dsimp only
        rw [if_pos hme, Function.update_of_ne hne]
  · rcases slot_of_stored (n := n) hq with hold | ⟨rfl, -⟩
    · obtain ⟨q', hq', hhash⟩ := hs.slot q hold
      exact ⟨q', proposalDB_stored hq', hhash⟩
    · exact hin
  · rcases hnext with rfl | rfl <;> cases hq
  · rcases hnext with rfl | rfl <;> rcases hq with hq | hq <;> cases hq
    exact hin
  · rcases hnext with rfl | rfl <;> cases hq

theorem Single.effect (hs : Single n s) (horderly : Orderly s) (hown : AtOwn n s)
    (hgenuine : ∀ h transactions p, e = .finish h transactions →
      receivedBlockProposal n h transactions = .ok p →
      p.verifyProposalECDSA n.cm h.hash h.signature = .ok () → p.proposerIndex = n.me → InDB n s p)
    (hrecorded : e = .restart → HashRecorded n s) (he : Effect n s e s') : Single n s' := by
  cases he with
  | same h =>
    obtain ⟨c, db, rfl⟩ := h
    exact hs.of_eq rfl rfl hs.slot rfl fun _ _ hv => hv
  | opened _ hkept => exact hs.of_eq rfl rfl hs.slot rfl hkept
  | closed => exact hs.of_eq rfl rfl hs.slot rfl fun _ _ hv => hv
  | @accepted h transactions p _ _ hreceived hverify hs' =>
    have hin := hgenuine h transactions p rfl hreceived hverify
    rcases hs' with rfl | rfl
    · exact hs.of_eq rfl rfl hs.slot rfl fun _ _ hv => hv
    · refine hs.of_eq (proposalDB_stored_of_inDB (s := signedFor n h p s) hin) rfl (fun q hq => ?_)
        rfl fun _ _ hv => hv
      rcases slot_of_stored hq with hold | ⟨rfl, hme⟩
      · exact hs.slot q hold
      · exact hin hme
  | committing =>
    exact hs.leave rfl rfl (fun p hp => hs.slot p (ProposalCaches.slot_of_cleanup hp))
      (.inr ⟨_, rfl⟩)
  | committed hholder => exact hs.next rfl (horderly.pushing _ hholder) hs.slot rfl
  | @found d p hholder hget hme =>
    refine ⟨hs.le, hs.slot, fun q hq => ?_, fun q hq => ?_, nofun⟩
    · obtain rfl : p = q := Holder.built.inj hq
      refine ⟨horderly.blockID_of_getBlockProposal hget, .inl ?_⟩
      rcases of_getBlockProposal hget with ⟨hslot, -⟩ | ⟨-, hdb⟩
      · exact hs.slot p hslot
      · exact ⟨p, by rw [horderly.filed _ p hdb]; exact hdb, rfl⟩
    · rcases hq with hq | hq <;> cases hq
  | @built d p hholder hmake hnone =>
    obtain ⟨hblock, -⟩ := of_myBlockProposal hmake
    refine ⟨hs.le, hs.slot, fun q hq => ?_, fun q hq => ?_, nofun⟩
    · obtain rfl : p = q := Holder.built.inj hq
      refine ⟨hblock, .inr (Option.not_isSome_iff_eq_none.mp fun hsome => ?_)⟩
      rw [hblock] at hsome
      have hhash := hs.fresh hholder hsome
      rw [hnone] at hhash
      cases hhash
    · rcases hq with hq | hq <;> cases hq
  | @stored p t holder hholder ht hnext hdone =>
    have hme : p.proposerIndex = n.me := hown p (by rw [hholder]; rfl)
    rcases ht with rfl | rfl
    · rcases hnext with rfl | rfl
      · have hnew : t.lastCommittedBlockID < p.blockID := by
          rw [(hs.built p hholder).1]
          exact Nat.lt_succ_self _
        rw [hdone rfl hnew]
        exact hs.stored hholder hme (.inl rfl)
      · exact hs.leave rfl rfl hs.slot (.inl rfl)
    · exact hs.stored hholder hme hnext
  | @saved p db hholder hkept =>
    refine ⟨hs.le, hs.slot, nofun, fun q hq => ?_, nofun⟩
    rcases hq with hq | hq <;> cases hq
    exact hs.passed p (.inl hholder)
  | signed | gaveUp => exact hs.leave rfl rfl hs.slot (.inl rfl)
  | restarted hlast =>
    rcases hlast with ⟨rfl, hnot⟩ | ⟨block, hholder, rfl⟩
    · refine ⟨hs.le, nofun, nofun, fun q hq => ?_, fun _ => hrecorded rfl hnot⟩
      rcases hq with hq | hq <;> cases hq
    · exact hs.next rfl (horderly.pushing block hholder) nofun rfl

/-! ### Every run -/

/-- Every proposal that was stored or issued has its hash in LevelDB. -/
structure Consistent (n : Node) (w : Proposer) : Prop where
  orderly : Orderly w.node
  own : AtOwn n w.node
  single : Single n w.node
  stored : ∀ p ∈ w.stored, InDB n w.node p
  issued : ∀ p ∈ w.issued, InDB n w.node p

theorem mem_storedAfter {stored : List BlockProposal} (h : p ∈ storedAfter stored e holder) :
    p ∈ stored ∨ holder = .stored p := by
  unfold storedAfter at h
  split at h
  · exact (List.mem_cons.mp h).symm.imp_right fun heq => by rw [heq]
  · exact .inl h

theorem mem_issuedAfter {issued : List BlockProposal} (h : p ∈ issuedAfter issued e holder) :
    p ∈ issued ∨ holder = .saved p := by
  unfold issuedAfter at h
  split at h
  · exact (List.mem_cons.mp h).symm.imp_right fun heq => by rw [heq]
  · exact .inl h

theorem inDB_of_allowed {w : Proposer} (hstored : ∀ p ∈ w.stored, InDB n w.node p)
    {h : BlockProposalRequestHeader} {transactions : List Transaction}
    (hallowed : w.Allowed n (.finish h transactions))
    (hreceived : receivedBlockProposal n h transactions = .ok p)
    (hverify : p.verifyProposalECDSA n.cm h.hash h.signature = .ok ())
    (hme : p.proposerIndex = n.me) : InDB n w.node p := by
  have hmem : p ∈ (receivedBlockProposal n h transactions).toOption := by
    rw [hreceived]
    rfl
  have hok : (p.verifyProposalECDSA n.cm h.hash h.signature).isOk = true := by
    rw [hverify]
    rfl
  obtain ⟨q, hq, hinput⟩ := hallowed p hmem hok hme
  obtain ⟨q', hdb, hhash⟩ := hstored q hq
  refine ⟨q', ?_, hhash.trans (congrArg n.cm.blake3 hinput)⟩
  rw [← ProposalFields.blockID_eq_of_hashInput q.fits p.fits hinput]
  exact hdb

/-- The node is not restarted between the proposal's and the hash's write. -/
def Recorded (n : Node) : ProposerEvent → Proposer → Prop
  | .node .restart, w => HashRecorded n w.node
  | _, _ => True

theorem Consistent.step {w w' : Proposer} {event : ProposerEvent} (hw : Consistent n w)
    (hrecorded : Recorded n event w) (hstep : proposerStep n event w = some w') :
    Consistent n w' := by
  cases event with
  | node e =>
    dsimp only [proposerStep] at hstep
    split_ifs at hstep with hallowed
    obtain ⟨s, hs, rfl⟩ := Option.map_eq_some_iff.mp hstep
    have heffect := effect_of_nodeStep hs
    have hsingle : Single n s := by
      refine hw.single.effect hw.orderly hw.own ?_ ?_ heffect
      · rintro h transactions p rfl hreceived hverify hme
        exact inDB_of_allowed hw.stored hallowed hreceived hverify hme
      · rintro rfl
        exact hrecorded
    refine ⟨hw.orderly.effect heffect, hw.own.effect heffect, hsingle, fun p hp => ?_,
      fun p hp => ?_⟩
    · rcases mem_storedAfter hp with hold | hholder
      · exact (hw.stored p hold).effect heffect
      · exact hsingle.passed p (.inl hholder)
    · rcases mem_issuedAfter hp with hold | hholder
      · exact (hw.issued p hold).effect heffect
      · exact (hw.single.passed p (.inr hholder)).effect heffect
  | enqueue =>
    dsimp only [proposerStep] at hstep
    split at hstep
    next p hholder _ =>
      cases hstep
      refine ⟨hw.orderly, hw.own, hw.single, hw.stored, fun q hq => ?_⟩
      rcases List.mem_cons.mp hq with rfl | hold
      · exact hw.single.passed q (.inr hholder)
      · exact hw.issued q hold
    next => cases hstep

def Holder.isPushing : Holder → Bool
  | .pushing _ => true
  | .nobody | .proposing | .built _ | .stored _ | .saved _ => false

theorem Holder.isPushing_eq_false_iff (h : Holder) :
    h.isPushing = false ↔ ∀ block, h ≠ .pushing block := by
  cases h <;> simp [Holder.isPushing]

instance (s : NodeState) : Decidable (HashRecorded n s) :=
  have : Decidable (∀ block, s.holder ≠ .pushing block) :=
    decidable_of_iff _ s.holder.isPushing_eq_false_iff
  inferInstanceAs (Decidable (_ → _ → _))

instance : ∀ event w, Decidable (Recorded n event w)
  | .node .restart, w => inferInstanceAs (Decidable (HashRecorded n w.node))
  | .node (.request ..), _ | .node (.finish ..), _ | .node (.drop _), _ | .node (.daProof _), _
  | .node (.merged ..), _ | .node (.catchup _), _ | .node .pushed, _ | .node (.build _), _
  | .node .store, _ | .node .save, _ | .node .sign, _ | .node .abort, _ | .enqueue, _ =>
    inferInstanceAs (Decidable True)

/-! ### Node 1 proposes again -/

/-- A call of `proposeNextBlock` up to the queue. -/
def proposing (d : Draft) : List ProposerEvent :=
  [.node (.build d), .node .store, .node .save, .enqueue]

def secondDraft : Draft := {firstDraft 1 with stamp := ⟨MODERN_TIME + 1, 1⟩}

end SkaleConsensus.Proposal
