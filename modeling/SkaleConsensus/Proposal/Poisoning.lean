import SkaleConsensus.Proposal.Exchange

/-! What a failed request leaves behind.

`createProposalResponseHeader` saves the hash of a request before the transactions have
arrived and the signature was looked at, and a request that then fails does not take it
back. Neither does it take back the transactions that its client sent. To say what that
costs, the node is run twice, with the failed request and without it. The two runs differ
in the pool of known transactions, in the open requests and in `ProposalHashDB` at one key
(`Twin`); nothing else of the node reads these. While the requests for that key carry the
saved hash, and while partial hashes tell transactions apart, both runs give the same
answers. -/
namespace SkaleConsensus.Proposal
open Library Block Crypto PendingQueue

variable {n : Node} {h : BlockProposalRequestHeader} {transactions : List Transaction}

/-! ### The records of the proposal server -/

def withRecords (requests : List BlockProposalRequestHeader) (db : ProtocolKey → Option Bytes)
    (s : NodeState) : NodeState :=
  {s with requests := requests, proposalHashDB := db}

section Frames
variable {requests : List BlockProposalRequestHeader} {db : ProtocolKey → Option Bytes}

theorem frames_checkState (check : Bool) (what : String) :
    Frames (withRecords requests db) (checkState check what : EStateM String NodeState Unit) := by
  cases check with
  | true => exact frames_pure ()
  | false => exact frames_throw _

theorem frames_addBlockProposal (p : BlockProposal) :
    Frames (withRecords requests db) (addBlockProposal n p) := by
  refine (frames_checkState _ _).bind fun _ => (frames_checkState _ _).bind fun _ => ?_
  refine Frames.bind (frames_modify fun _ => rfl) fun _ => ?_
  split_ifs
  · exact frames_modify fun _ => rfl
  · exact frames_pure ()

theorem frames_proposedBlockArrived (p : BlockProposal) :
    Frames (withRecords requests db) (proposedBlockArrived n p) := by
  refine frames_get_bind (fun _ => rfl) fun s => ?_
  split_ifs
  · exact frames_addBlockProposal p
  · exact frames_pure ()

theorem frames_signDAProof (p : BlockProposal) :
    Frames (withRecords requests db) (signDAProof n p) :=
  frames_modify fun _ => rfl

theorem frames_daProofArrived (key : ProtocolKey) (signature : Bytes) :
    Frames (withRecords requests db) (daProofArrived key signature) := by
  refine frames_modify fun s => ?_
  show (if key.blockID ≤ s.lastCommittedBlockID then _ else _) = _
  split_ifs <;> rfl

theorem frames_withSessionKeys {α : Type} (x : EStateM String SessionCache α) :
    Frames (withRecords requests db) (withSessionKeys x) := by
  intro s
  show withSessionKeys x (withRecords requests db s) = mapState _ (withSessionKeys x s)
  dsimp only [withSessionKeys, withRecords]
  cases x.run s.sessionPublicKeys <;> rfl

theorem frames_storeDAProof (h : SubmitDAProofRequestHeader) :
    Frames (withRecords requests db) (storeDAProof n h) := by
  refine frames_get_bind (fun _ => rfl) fun s => ?_
  split
  · exact frames_pure _
  · split_ifs
    · exact frames_pure _
    · exact frames_pure _
    · exact (frames_daProofArrived _ _).bind fun _ => frames_pure _

theorem frames_processDAProofRequest (js : Json) :
    Frames (withRecords requests db) (processDAProofRequest n js) := by
  unfold processDAProofRequest
  split
  · exact frames_throw _
  · refine Frames.adaptExcept ?_ _
    refine frames_get_bind (fun _ => rfl) fun s => ?_
    split
    · exact frames_throw _
    · exact frames_pure _
    · split
      · exact frames_pure _
      · refine (frames_withSessionKeys _).returned.bind fun verified => ?_
        split
        · exact frames_storeDAProof _
        · exact frames_pure _

theorem finishRequest_run (h : BlockProposalRequestHeader) (transactions : List Transaction)
    (s : NodeState) :
    (finishRequest n h transactions).run (withRecords requests db s) =
      mapState (withRecords (requests.erase h) db) ((finishRequest n h transactions).run s) := by
  show EStateM.run (checkState _ _ >>= fun _ => _)
      (withRecords (requests.erase h) db {s with requests := s.requests.erase h}) =
    mapState _ (EStateM.run (checkState _ _ >>= fun _ => _)
      {s with requests := s.requests.erase h})
  refine (Frames.bind (frames_checkState _ _) fun _ => ?_) _
  split
  · exact frames_throw _
  · split
    · exact frames_pure _
    · exact (frames_signDAProof _).bind fun _ =>
        ((frames_proposedBlockArrived _).adaptExcept _).bind fun _ => frames_pure _

end Frames

/-- A program that looks at no record leaves the records. -/
theorem records_of_frames {α : Type} {x : EStateM String NodeState α}
    (hx : ∀ requests db, Frames (withRecords requests db) x) (s : NodeState) :
    (finalState x s).requests = s.requests ∧
      (finalState x s).proposalHashDB = s.proposalHashDB := by
  have heq : finalState x s = withRecords s.requests s.proposalHashDB (finalState x s) :=
    finalState_of_mapState (hx s.requests s.proposalHashDB s)
  constructor
  · rw [heq]
    rfl
  · rw [heq]
    rfl

/-! ### With the request and without it -/

/-- The hash of `h` is saved in `db` only. -/
structure Poisoned (h : BlockProposalRequestHeader) (db db' : ProtocolKey → Option Bytes) :
    Prop where
  saved : db h.key = some h.hash
  missing : db' h.key = none
  elsewhere : ∀ key, key ≠ h.key → db key = db' key

/-- The records of a node that had the request `h`, next to the state of one that had not.
While the request is open, `extra` holds it. -/
structure Twin (h : BlockProposalRequestHeader) (extra requests : List BlockProposalRequestHeader)
    (db : ProtocolKey → Option Bytes) (s : NodeState) : Prop where
  requests : (extra ++ s.requests).Subperm requests
  hashes : db = s.proposalHashDB ∨ Poisoned h db s.proposalHashDB

def NodeEvent.header? (n : Node) : NodeEvent → Option BlockProposalRequestHeader
  | .request js _ => (blockProposalRequestHeader n js).toOption
  | _ => none

/-- A request for the block and proposer of `h` carries the hash of `h`. -/
def SameHash (n : Node) (h : BlockProposalRequestHeader) (e : NodeEvent) : Prop :=
  ∀ h' ∈ e.header? n, h'.key = h.key → h'.hash = h.hash

instance decidableSameHash (n : Node) (h : BlockProposalRequestHeader) (e : NodeEvent) :
    Decidable (SameHash n h e) :=
  inferInstanceAs (Decidable (∀ h' ∈ e.header? n, h'.key = h.key → h'.hash = h.hash))

def ServerEvent.SameHash (n : Node) (h : BlockProposalRequestHeader) : ServerEvent → Prop
  | .node e => Proposal.SameHash n h e
  | .learn _ | .exchange _ _ _ => True

instance ServerEvent.decidableSameHash (n : Node) (h : BlockProposalRequestHeader) :
    ∀ e, Decidable (ServerEvent.SameHash n h e)
  | .node e => inferInstanceAs (Decidable (Proposal.SameHash n h e))
  | .learn _ | .exchange _ _ _ => inferInstanceAs (Decidable True)

section Twin
variable {h : BlockProposalRequestHeader} {extra requests : List BlockProposalRequestHeader}
  {db : ProtocolKey → Option Bytes} {s s' : NodeState}

theorem Twin.mem (ht : Twin h extra requests db s) {h' : BlockProposalRequestHeader}
    (hmem : h' ∈ s.requests) : h' ∈ requests :=
  ht.requests.subset (List.mem_append_right extra hmem)

theorem Twin.lookup (ht : Twin h extra requests db s) {key : ProtocolKey}
    (hkey : db = s.proposalHashDB ∨ key ≠ h.key) : db key = s.proposalHashDB key := by
  rcases hkey with rfl | hkey
  · rfl
  · rcases ht.hashes with rfl | hpoisoned
    · rfl
    · exact hpoisoned.elsewhere key hkey

/-- Steps in pace: what the step of one node does the step of the other does, and hashes
that were the same stay the same. -/
def InPace (n : Node) (h : BlockProposalRequestHeader)
    (extra requests : List BlockProposalRequestHeader) (db : ProtocolKey → Option Bytes)
    (e : NodeEvent) (s s' : NodeState) : Prop :=
  ∃ requests' db', nodeStep n e (withRecords requests db s) = some (withRecords requests' db' s') ∧
    Twin h extra requests' db' s' ∧ (db = s.proposalHashDB → db' = s'.proposalHashDB)

theorem Twin.inPace (ht : Twin h extra requests db s) {e : NodeEvent}
    (hstep : nodeStep n e (withRecords requests db s) = some (withRecords requests db s'))
    (hrequests : s'.requests = s.requests) (hdb : s'.proposalHashDB = s.proposalHashDB) :
    InPace n h extra requests db e s s' := by
  refine ⟨requests, db, hstep, ⟨?_, ?_⟩, ?_⟩
  · rw [hrequests]
    exact ht.requests
  · rw [hdb]
    exact ht.hashes
  · rw [hdb]
    exact id

/-- A hash that is offered to both: the answer is the same, and so are the hashes then if
they were or if it goes to the poisoned key. -/
theorem offered_of_poisoned (hashes : db = s.proposalHashDB ∨ Poisoned h db s.proposalHashDB)
    {key : ProtocolKey} {hash : Bytes}
    (hsame : db = s.proposalHashDB ∨ (key = h.key → hash = h.hash)) :
    (db key).all (· == hash) = (s.proposalHashDB key).all (· == hash) ∧
      (offered key hash db = offered key hash s.proposalHashDB ∨
        Poisoned h (offered key hash db) (offered key hash s.proposalHashDB)) := by
  rcases hashes with rfl | hpoisoned
  · exact ⟨rfl, .inl rfl⟩
  · have hhash : key = h.key → hash = h.hash := by
      refine hsame.resolve_left fun heq => ?_
      have hmissing := hpoisoned.missing
      rw [← heq, hpoisoned.saved] at hmissing
      cases hmissing
    rcases eq_or_ne key h.key with rfl | hne
    · rw [hhash rfl, hpoisoned.saved, hpoisoned.missing, offered_of_some hpoisoned.saved,
        offered_of_none hpoisoned.missing]
      refine ⟨by simp, .inl (funext fun key => ?_)⟩
      rcases eq_or_ne key h.key with rfl | hne
      · rw [Function.update_self, hpoisoned.saved]
      · rw [Function.update_of_ne hne, hpoisoned.elsewhere key hne]
    · rw [hpoisoned.elsewhere key hne]
      refine ⟨rfl, .inr ⟨?_, ?_, fun key' hne' => ?_⟩⟩
      · exact (Function.update_of_ne hne.symm ..).trans hpoisoned.saved
      · exact (Function.update_of_ne hne.symm ..).trans hpoisoned.missing
      · unfold offered
        rcases eq_or_ne key' key with rfl | hother
        · rw [Function.update_self, Function.update_self, hpoisoned.elsewhere key' hne]
        · rw [Function.update_of_ne hother, Function.update_of_ne hother,
            hpoisoned.elsewhere key' hne']

/-- A request is answered in pace. -/
theorem Twin.openRequest_run (ht : Twin h extra requests db s) {js : Json} {now : ℕ}
    (hsame : db = s.proposalHashDB ∨ SameHash n h (.request js now)) :
    ∃ requests' db', (openRequest n js now).run (withRecords requests db s) =
        mapState (withRecords requests' db') ((openRequest n js now).run s) ∧
      Twin h extra requests' db' (finalState (openRequest n js now) s) ∧
      (db = s.proposalHashDB → db' = (finalState (openRequest n js now) s).proposalHashDB) := by
  cases hread : blockProposalRequestHeader n js with
  | error e =>
    have hrun : ∀ t, (openRequest n js now).run t =
        .error "Couldnt create proposal response header" t := fun t => by
      unfold openRequest
      rw [hread]
      rfl
    rw [hrun, hrun, finalState_of_error (hrun s)]
    exact ⟨requests, db, rfl, ht, id⟩
  | ok h' =>
    have hhash : db = s.proposalHashDB ∨ (h'.key = h.key → h'.hash = h.hash) :=
      hsame.imp_right fun hsame => hsame h' (by
        dsimp only [NodeEvent.header?]
        rw [hread]
        rfl)
    have hrun := Proposal.openRequest_run (s := s) hread now
    have hrun' := Proposal.openRequest_run (s := withRecords requests db s) hread now
    have hrefuse : refuseProposal n (withRecords requests db s) h' now =
        refuseProposal n s h' now := rfl
    rw [hrefuse] at hrun'
    unfold finalState
    rw [hrun, hrun']
    cases refuseProposal n s h' now with
    | some response => exact ⟨requests, db, rfl, ht, id⟩
    | none =>
      dsimp only
      cases h'.hash.isEmpty with
      | true => exact ⟨requests, db, rfl, ht, id⟩
      | false =>
        obtain ⟨hanswer, hoffered⟩ := offered_of_poisoned ht.hashes hhash
        have hkept : db = s.proposalHashDB →
            offered h'.key h'.hash db = offered h'.key h'.hash s.proposalHashDB :=
          congrArg _
        have hanswer' : ((withRecords requests db s).proposalHashDB h'.key).all (· == h'.hash) =
            (s.proposalHashDB h'.key).all (· == h'.hash) := hanswer
        rw [hanswer']
        cases (s.proposalHashDB h'.key).all (· == h'.hash) with
        | true =>
          refine ⟨h' :: requests, offered h'.key h'.hash db, rfl, ⟨?_, hoffered⟩, hkept⟩
          exact List.perm_middle.subperm.trans ((List.subperm_cons h').mpr ht.requests)
        | false => exact ⟨requests, offered h'.key h'.hash db, rfl, ⟨ht.requests, hoffered⟩, hkept⟩

theorem Twin.checkAndSaveHash_run (ht : Twin h extra requests db s) (key : ProtocolKey)
    (hash : Bytes) (hsame : db = s.proposalHashDB ∨ (key = h.key → hash = h.hash)) :
    ∃ db', (checkAndSaveHash key hash).run (withRecords requests db s) =
        mapState (withRecords requests db') ((checkAndSaveHash key hash).run s) ∧
      (db' = (finalState (checkAndSaveHash key hash) s).proposalHashDB ∨
        Poisoned h db' (finalState (checkAndSaveHash key hash) s).proposalHashDB) ∧
      (db = s.proposalHashDB →
        db' = (finalState (checkAndSaveHash key hash) s).proposalHashDB) := by
  unfold finalState
  rw [Proposal.checkAndSaveHash_run, Proposal.checkAndSaveHash_run]
  cases hash.isEmpty with
  | true => exact ⟨db, rfl, ht.hashes, id⟩
  | false =>
    obtain ⟨hanswer, hoffered⟩ := offered_of_poisoned ht.hashes hsame
    refine ⟨offered key hash db, ?_, hoffered, congrArg _⟩
    rw [show ((withRecords requests db s).proposalHashDB key).all (· == hash) =
      (s.proposalHashDB key).all (· == hash) from hanswer]
    rfl

theorem holderAfter_of_mapState {α : Type} {x : EStateM String NodeState α} {next : α → Holder}
    {requests requests' : List BlockProposalRequestHeader} {db db' : ProtocolKey → Option Bytes}
    (hrun : x.run (withRecords requests db s) = mapState (withRecords requests' db') (x.run s)) :
    holderAfter x next (withRecords requests db s) =
      withRecords requests' db' (holderAfter x next s) := by
  unfold holderAfter
  rw [finalState_of_mapState hrun, result?_of_mapState hrun]
  rfl

/-- `proposeNextBlock` asks for the hash of the node's own proposal only. -/
theorem nextProposal_run (d : Draft) (hown : db ⟨s.lastCommittedBlockID + 1, n.me⟩ =
      s.proposalHashDB ⟨s.lastCommittedBlockID + 1, n.me⟩) :
    (nextProposal n d).run (withRecords requests db s) =
      mapState (withRecords requests db) ((nextProposal n d).run s) := by
  have hsame : getBlockProposal n (withRecords requests db s) (s.lastCommittedBlockID + 1) n.me =
    getBlockProposal n s (s.lastCommittedBlockID + 1) n.me := rfl
  have hlast : (withRecords requests db s).lastCommittedBlockID = s.lastCommittedBlockID := rfl
  have hdb : (withRecords requests db s).proposalHashDB = db := rfl
  unfold nextProposal
  rw [run_get_bind, run_get_bind]
  dsimp only
  rw [hlast, hdb, hown, hsame]
  cases (s.proposalHashDB ⟨s.lastCommittedBlockID + 1, n.me⟩).isSome with
  | true =>
    rw [if_pos rfl, if_pos rfl]
    cases getBlockProposal n s (s.lastCommittedBlockID + 1) n.me with
    | none => rfl
    | some p => exact (frames_checkState _ _).bind (fun _ => frames_pure p) s
  | false =>
    rw [if_neg (by decide), if_neg (by decide)]
    cases myBlockProposal n (s.lastCommittedBlockID + 1) d <;> rfl

theorem Twin.erase (ht : Twin h extra requests db s) {h' : BlockProposalRequestHeader}
    (hmem : h' ∈ s.requests) :
    (extra ++ s.requests.erase h').Subperm (requests.erase h') := by
  have hperm : (extra ++ s.requests).Perm (h' :: (extra ++ s.requests.erase h')) :=
    ((List.perm_cons_erase hmem).append_left extra).trans List.perm_middle
  have herase := (hperm.symm.subperm.trans ht.requests).erase h'
  rwa [List.erase_cons_head] at herase

theorem records_finishRequest (h' : BlockProposalRequestHeader) (transactions : List Transaction)
    (s : NodeState) :
    (finalState (finishRequest n h' transactions) s).requests = s.requests.erase h' ∧
      (finalState (finishRequest n h' transactions) s).proposalHashDB = s.proposalHashDB := by
  have hrun : (finishRequest n h' transactions).run s =
      mapState (withRecords (s.requests.erase h') s.proposalHashDB)
        ((finishRequest n h' transactions).run s) := finishRequest_run h' transactions s
  rw [finalState_of_mapState hrun]
  exact ⟨rfl, rfl⟩

theorem requests_checkAndSaveHash (key : ProtocolKey) (hash : Bytes) (s : NodeState) :
    (finalState (checkAndSaveHash key hash) s).requests = s.requests := by
  unfold finalState
  rw [Proposal.checkAndSaveHash_run]
  split_ifs <;> rfl

theorem restarted_withRecords :
    restarted (withRecords requests db s) = withRecords [] db (restarted s) := by
  unfold restarted withRecords
  dsimp only
  split <;> rfl

theorem records_restarted (s : NodeState) :
    (restarted s).requests = [] ∧ (restarted s).proposalHashDB = s.proposalHashDB := by
  unfold restarted
  dsimp only
  split <;> exact ⟨rfl, rfl⟩

theorem Twin.step (ht : Twin h extra requests db s) {e : NodeEvent}
    (hsame : db = s.proposalHashDB ∨ h.proposerIndex ≠ n.me ∧ SameHash n h e)
    (halive : e = .restart → extra = []) (hstep : nodeStep n e s = some s') :
    InPace n h extra requests db e s s' := by
  have hown : ∀ b, db ⟨b, n.me⟩ = s.proposalHashDB ⟨b, n.me⟩ := fun b =>
    ht.lookup
      (hsame.imp_right fun hother heq => hother.1 (congrArg (·.blockProposerIndex) heq).symm)
  cases e with
  | request js now =>
    cases hstep
    obtain ⟨requests', db', hrun, ht', hkept⟩ :=
      ht.openRequest_run (hsame.imp_right And.right : _ ∨ SameHash n h (.request js now))
    exact ⟨requests', db', congrArg some (finalState_of_mapState hrun), ht', hkept⟩
  | finish h' transactions =>
    dsimp only [nodeStep] at hstep
    split_ifs at hstep with hguard
    cases hstep
    have hrun : (finishRequest n h' transactions).run (withRecords requests db s) =
        mapState (withRecords (requests.erase h') db) ((finishRequest n h' transactions).run s) :=
      finishRequest_run h' transactions s
    obtain ⟨hrequests, hdb⟩ := records_finishRequest (n := n) h' transactions s
    refine ⟨requests.erase h', db, ?_, ⟨?_, ?_⟩, ?_⟩
    · dsimp only [nodeStep]
      rw [if_pos ⟨ht.mem hguard.1, hguard.2⟩, finalState_of_mapState hrun]
    · rw [hrequests]
      exact ht.erase hguard.1
    · rw [hdb]
      exact ht.hashes
    · rw [hdb]
      exact id
  | drop h' =>
    dsimp only [nodeStep] at hstep
    split_ifs at hstep with hguard
    cases hstep
    exact ⟨requests.erase h', db, if_pos (ht.mem hguard), ⟨ht.erase hguard, ht.hashes⟩, id⟩
  | daProof js =>
    cases hstep
    obtain ⟨hrequests, hdb⟩ := records_of_frames
      (fun _ _ => frames_processDAProofRequest (n := n) js) s
    exact ht.inPace (congrArg some (finalState_of_mapState (frames_processDAProofRequest js s)))
      hrequests hdb
  | merged p signature =>
    dsimp only [nodeStep] at hstep
    split_ifs at hstep with hguard
    cases hstep
    obtain ⟨hrequests, hdb⟩ := records_of_frames
      (fun _ _ => frames_daProofArrived ⟨p.blockID, n.me⟩ signature) s
    refine ht.inPace ?_ hrequests hdb
    dsimp only [nodeStep]
    rw [if_pos hguard, finalState_of_mapState (frames_daProofArrived _ _ s)]
  | catchup block =>
    dsimp only [nodeStep] at hstep
    split_ifs at hstep with hguard
    cases hstep
    exact ht.inPace (if_pos hguard) rfl rfl
  | pushed =>
    dsimp only [nodeStep] at hstep
    split at hstep
    next block hholder =>
      cases hstep
      refine ht.inPace ?_ rfl rfl
      dsimp only [nodeStep, withRecords]
      rw [hholder]
      rfl
    next => cases hstep
  | build d =>
    dsimp only [nodeStep] at hstep
    split at hstep
    next hholder =>
      cases hstep
      have hrun : (nextProposal n d).run (withRecords requests db s) =
          mapState (withRecords requests db) ((nextProposal n d).run s) :=
        nextProposal_run d (hown _)
      have hrun' : holderAfter (nextProposal n d) .built s =
          withRecords s.requests s.proposalHashDB (holderAfter (nextProposal n d) .built s) :=
        holderAfter_of_mapState (nextProposal_run d rfl)
      refine ht.inPace ?_ (by rw [hrun']; rfl) (by rw [hrun']; rfl)
      rw [← holderAfter_of_mapState hrun]
      dsimp only [nodeStep]
      rw [show (withRecords requests db s).holder = .proposing from hholder]
    next => cases hstep
  | store =>
    dsimp only [nodeStep] at hstep
    split at hstep
    next p hholder =>
      cases hstep
      obtain ⟨hrequests, hdb⟩ := records_of_frames
        (fun _ _ => frames_proposedBlockArrived (n := n) p) s
      refine ht.inPace ?_ hrequests hdb
      rw [← holderAfter_of_mapState (frames_proposedBlockArrived p s)]
      dsimp only [nodeStep]
      rw [show (withRecords requests db s).holder = .built p from hholder]
    next => cases hstep
  | save =>
    dsimp only [nodeStep] at hstep
    split at hstep
    next p hholder =>
      cases hstep
      obtain ⟨db', hrun, hdb', hkept⟩ := ht.checkAndSaveHash_run
        ⟨s.lastCommittedBlockID + 1, n.me⟩ (toHex (p.hash n.cm.blake3))
        (hsame.imp_right fun hother heq =>
          absurd (congrArg (·.blockProposerIndex) heq).symm hother.1)
      have hrequests := requests_checkAndSaveHash ⟨s.lastCommittedBlockID + 1, n.me⟩
        (toHex (p.hash n.cm.blake3)) s
      refine ⟨requests, db', ?_, ⟨?_, hdb'⟩, hkept⟩
      · rw [← holderAfter_of_mapState hrun]
        dsimp only [nodeStep]
        rw [show (withRecords requests db s).holder = .stored p from hholder]
        rfl
      · exact hrequests.symm ▸ ht.requests
    next => cases hstep
  | sign =>
    dsimp only [nodeStep] at hstep
    split at hstep
    next p hholder =>
      cases hstep
      refine ht.inPace ?_ rfl rfl
      rw [← holderAfter_of_mapState (frames_signDAProof p s)]
      dsimp only [nodeStep]
      rw [show (withRecords requests db s).holder = .saved p from hholder]
    next => cases hstep
  | abort =>
    dsimp only [nodeStep] at hstep
    split at hstep
    next => cases hstep
    next hnot =>
      cases hstep
      refine ht.inPace ?_ rfl rfl
      dsimp only [nodeStep, withRecords]
      split
      next block hholder => exact absurd hholder (hnot block)
      next => rfl
  | restart =>
    cases hstep
    have hrecords := records_restarted s
    refine ⟨[], db, congrArg some restarted_withRecords, ⟨?_, ?_⟩, ?_⟩
    · rw [halive rfl, hrecords.1]
      exact List.Subperm.refl []
    · rw [hrecords.2]
      exact ht.hashes
    · rw [hrecords.2]
      exact id

/-- The saved hashes are the same, or what is to come keeps to the hash of `h`. -/
def Sure (n : Node) (h : BlockProposalRequestHeader) (db : ProtocolKey → Option Bytes)
    (s : NodeState) (events : List ServerEvent) : Prop :=
  db = s.proposalHashDB ∨ h.proposerIndex ≠ n.me ∧ ∀ e ∈ events, e.SameHash n h

end Twin

/-- `w` had the request `h` and `s` had not, and this is all that makes a difference to the
events to come. -/
structure Beside (n : Node) (F : Set Transaction) (h : BlockProposalRequestHeader)
    (extra : List BlockProposalRequestHeader) (later : List ServerEvent) (w s : ServerState) :
    Prop where
  node : ∃ requests db, w.node = withRecords requests db s.node ∧
    Twin h extra requests db s.node ∧ Sure n h db s.node later
  withIt : Holds n.cm.blake3 F w.known
  without : Holds n.cm.blake3 F s.known

/-- The transactions of an event are of `F`, and its client answers. -/
def Telling (n : Node) (F : Set Transaction) (e : ServerEvent) : Prop :=
  e.Within F ∧ e.Answered n.cm.blake3

section Beside
variable {order : Iteration n.cm.blake3} {F : Set Transaction} {h : BlockProposalRequestHeader}
  {extra : List BlockProposalRequestHeader} {later : List ServerEvent} {w s s' : ServerState}

theorem Beside.step {e : ServerEvent} (hF : F.InjOn (poolKey n.cm.blake3))
    (hw : Beside n F h extra (e :: later) w s) (he : Telling n F e)
    (halive : e = .node .restart → extra = []) (hstep : serverStep n order e s = some s') :
    ∃ w', serverStep n order e w = some w' ∧ Beside n F h extra later w' s' := by
  obtain ⟨requests, db, hnode, ht, hsure⟩ := hw.node
  have hlater : Sure n h db s.node later :=
    hsure.imp_right fun hother => ⟨hother.1, fun e' he' => hother.2 e' (List.mem_cons_of_mem e he')⟩
  have hresolved : e.resolved order w.known = e.resolved order s.known :=
    ServerEvent.resolved_eq hF hw.withIt hw.without he.1 he.2
  unfold serverStep at hstep ⊢
  split_ifs at hstep ⊢
  obtain ⟨node', hnode', rfl⟩ := Option.map_eq_some_iff.mp hstep
  rw [hresolved, hnode]
  cases hevent : e.resolved order s.known with
  | none =>
    rw [hevent] at hnode'
    obtain rfl := Option.some.inj hnode'
    exact ⟨_, rfl, ⟨requests, db, rfl, ht, hlater⟩, he.1.holds hw.withIt, he.1.holds hw.without⟩
  | some e' =>
    rw [hevent] at hnode'
    -- what an exchange is resolved to is no request and no restart
    have hof : (e' = .restart → extra = []) ∧
        (db = s.node.proposalHashDB ∨ h.proposerIndex ≠ n.me ∧ SameHash n h e') := by
      cases e with
      | node e =>
        cases hevent
        exact ⟨fun hrestart => halive (congrArg _ hrestart),
          hsure.imp_right fun hother => ⟨hother.1, hother.2 _ List.mem_cons_self⟩⟩
      | learn t => cases hevent
      | exchange h' client meanwhile =>
        simp only [ServerEvent.resolved] at hevent
        split at hevent <;> cases hevent <;>
          exact ⟨by simp, hsure.imp_right fun hother =>
            ⟨hother.1, fun _ hmem => absurd hmem (Option.not_mem_none _)⟩⟩
    obtain ⟨requests', db', hstep', ht', hkept⟩ := ht.step hof.2 hof.1 hnode'
    refine ⟨_, congrArg (Option.map _) hstep', ⟨requests', db', rfl, ht', ?_⟩,
      he.1.holds hw.withIt, he.1.holds hw.without⟩
    exact hlater.imp hkept id

theorem Beside.run {events : List ServerEvent} (hF : F.InjOn (poolKey n.cm.blake3))
    (hw : Beside n F h extra (events ++ later) w s) (hevents : ∀ e ∈ events, Telling n F e)
    (halive : .node .restart ∈ events → extra = [])
    (hrun : (server n order).runFrom s events = some s') :
    ∃ w', (server n order).runFrom w events = some w' ∧ Beside n F h extra later w' s' := by
  induction events generalizing w s with
  | nil =>
    cases hrun
    exact ⟨w, rfl, hw⟩
  | cons e rest ih =>
    obtain ⟨mid, hmid, hrest⟩ := Option.bind_eq_some_iff.mp hrun
    obtain ⟨w₁, hstep, hw₁⟩ := hw.step hF (hevents e List.mem_cons_self)
      (fun he => halive (he ▸ List.mem_cons_self)) hmid
    obtain ⟨w', hrun', hw'⟩ := ih hw₁ (fun e' he' => hevents e' (List.mem_cons_of_mem e he'))
      (fun he => halive (List.mem_cons_of_mem e he)) hrest
    exact ⟨w', Option.bind_eq_some_iff.mpr ⟨w₁, hstep, hrun'⟩, hw'⟩

end Beside

/-! ### Requests that fail -/

/-- What the constructor of a header takes from a JSON object. -/
structure Reads (n : Node) (js : Json) (h : BlockProposalRequestHeader) : Prop where
  schainID : js.getUint64 "schainID" = .ok h.schainID
  blockID : js.getUint64 "blockID" = .ok h.blockID
  proposerIndex : js.getUint64 "proposerIndex" = .ok h.proposerIndex
  index : h.proposerIndex ≤ n.cm.nodeCount ∧ 0 < h.proposerIndex
  proposerNodeID : js.getUint64 "proposerNodeID" = .ok h.proposerNodeID
  timeStamp : js.getUint64 "timeStamp" = .ok h.timeStamp
  timeStampMs : js.getUint32 "timeStampMs" = .ok h.timeStampMs
  hash : js.getString "hash" = .ok h.hash
  signature : js.getString "sig" = .ok h.signature
  txCount : js.getUint64 "txCount" = .ok h.txCount
  stateRoot : ∃ text, js.getString "sr" = .ok text ∧ n.u256 text = some h.stateRoot

theorem of_blockProposalRequestHeader {js : Json} (hread : blockProposalRequestHeader n js = .ok h)
    : Reads n js h := by
  obtain ⟨schainID, hschain, h₁⟩ := bind_eq_ok.mp hread
  obtain ⟨blockID, hblock, h₂⟩ := bind_eq_ok.mp h₁
  obtain ⟨proposerIndex, hindex, h₃⟩ := bind_eq_ok.mp h₂
  obtain ⟨hle, h₄⟩ := checkArgument_bind_eq_ok.mp h₃
  obtain ⟨hpos, h₅⟩ := checkArgument_bind_eq_ok.mp h₄
  obtain ⟨proposerNodeID, hnode, h₆⟩ := bind_eq_ok.mp h₅
  obtain ⟨timeStamp, hstamp, h₇⟩ := bind_eq_ok.mp h₆
  obtain ⟨timeStampMs, hms, h₈⟩ := bind_eq_ok.mp h₇
  obtain ⟨hash, hhash, h₉⟩ := bind_eq_ok.mp h₈
  have h₁₀ := after_check h₉
  obtain ⟨signature, hsignature, h₁₁⟩ := bind_eq_ok.mp h₁₀
  have h₁₂ := after_check h₁₁
  obtain ⟨txCount, hcount, h₁₃⟩ := bind_eq_ok.mp h₁₂
  obtain ⟨stateRootStr, hstr, h₁₄⟩ := bind_eq_ok.mp h₁₃
  have h₁₅ := after_check h₁₄
  split at h₁₅
  · cases h₁₅
  · next stateRoot hroot =>
    cases h₁₅
    exact ⟨hschain, hblock, hindex, ⟨of_decide_eq_true hle,
      of_decide_eq_true hpos⟩, hnode, hstamp, hms, hhash, hsignature,
      hcount, stateRootStr, hstr, hroot⟩

/-- A proposal of a node of the chain that verifies is stored and signed for. -/
theorem result?_finishRequest {p : BlockProposal}
    (hindex : h.proposerIndex ≤ n.cm.nodeCount ∧ 0 < h.proposerIndex) (htime : 0 < h.timeStamp)
    (hreceived : receivedBlockProposal n h transactions = .ok p)
    (hverify : p.verifyProposalECDSA n.cm h.hash h.signature = .ok ()) (s : NodeState) :
    result? (finishRequest n h transactions) s = some (.success, .ok) := by
  obtain ⟨-, hproposer⟩ := of_receivedBlockProposal hreceived
  rw [← hproposer] at hindex
  have hstored : ∀ t : NodeState, ∃ t', (proposedBlockArrived n p).run t = .ok () t' := by
    intro t
    show ∃ t', EStateM.run (if t.lastCommittedBlockID < p.blockID then _ else _) t = .ok () t'
    split_ifs
    · exact ⟨_, addBlockProposal_run_of_le hindex.1 hindex.2⟩
    · exact ⟨t, rfl⟩
  obtain ⟨t', ht'⟩ := hstored (finalState (signDAProof n p) {s with requests := s.requests.erase h})
  have hrun : (finishRequest n h transactions).run s = .ok (.success, .ok) t' := by
    refine run_bind_eq_ok.mpr ⟨(), {s with requests := s.requests.erase h}, rfl, ?_⟩
    refine run_bind_eq_ok.mpr ⟨(), _, checkState_run_of_true (decide_eq_true htime) _ _, ?_⟩
    rw [hreceived]
    dsimp only
    rw [hverify]
    refine run_bind_eq_ok.mpr ⟨(), _, rfl, ?_⟩
    exact run_bind_eq_ok.mpr ⟨(), t', run_adaptExcept_eq_ok.mpr ht', rfl⟩
  unfold result?
  rw [hrun]

/-- A request of a node of the chain that does not succeed is only taken off the list. -/
theorem finalState_of_not_success {s : NodeState}
    (hindex : h.proposerIndex ≤ n.cm.nodeCount ∧ 0 < h.proposerIndex)
    (hresult : result? (finishRequest n h transactions) s ≠ some (.success, .ok)) :
    finalState (finishRequest n h transactions) s = {s with requests := s.requests.erase h} := by
  rcases finalState_finishRequest (n := n) (s := s) h transactions with
    heq | ⟨p, hreceived, hverify, -⟩
  · exact heq
  · by_cases htime : 0 < h.timeStamp
    · exact absurd (result?_finishRequest hindex htime hreceived hverify s) hresult
    · unfold finishRequest
      rw [finalState_bind_of_ok (x := modify _) (a := ()) rfl]
      exact finalState_bind_of_error (checkState_run_of_false (decide_eq_false htime) _ _)

/-- What an open request ends with, if its exchange leads to a list. -/
def outcome (n : Node) (order : Iteration n.cm.blake3) (s : ServerState)
    (h : BlockProposalRequestHeader) (client : Client) (meanwhile : ℕ → List Transaction) :
    Option Response :=
  (exchange order s.known client meanwhile).1.bind fun transactions =>
    result? (finishRequest n h transactions) s.node

/-- The node has read a header. -/
def ServerState.opened (n : Node) (js : Json) (now : ℕ) (s : ServerState) : ServerState :=
  {s with node := finalState (openRequest n js now) s.node}

/-- A request that does not end with success: the node goes from `s` to the state that is
left, taking the steps `mid` on the way; `ending` is what the request still does after them. -/
inductive Failed (n : Node) (order : Iteration n.cm.blake3) (js : Json) (now : ℕ)
    (mid : List ServerEvent) (s : ServerState) : List ServerEvent → ServerState → Prop
  /-- It was refused at once, or nothing is heard of it any more, or the node went down. -/
  | unheard {t : ServerState} (hmid : (server n order).runFrom (s.opened n js now) mid = some t) :
      Failed n order js now mid s [] t
  /-- The connection is dropped or throws. -/
  | dropped {h : BlockProposalRequestHeader} {t t' : ServerState}
      (hread : blockProposalRequestHeader n js = .ok h)
      (hproceed : result? (openRequest n js now) s.node = some (.proceed, .ok))
      (hmid : (server n order).runFrom (s.opened n js now) mid = some t)
      (halive : .node .restart ∉ mid) (hend : serverStep n order (.node (.drop h)) t = some t') :
      Failed n order js now mid s [.node (.drop h)] t'
  /-- A transaction is missing, the proposal does not have the hash, or its signature does not
  verify. -/
  | bad {h : BlockProposalRequestHeader} {client : Client} {meanwhile : ℕ → List Transaction}
      {t t' : ServerState} (hread : blockProposalRequestHeader n js = .ok h)
      (hproceed : result? (openRequest n js now) s.node = some (.proceed, .ok))
      (hmid : (server n order).runFrom (s.opened n js now) mid = some t)
      (halive : .node .restart ∉ mid)
      (hresult : outcome n order t h client meanwhile ≠ some (.success, .ok))
      (hend : serverStep n order (.exchange h client meanwhile) t = some t') :
      Failed n order js now mid s [.exchange h client meanwhile] t'

/-- A request saves no hash: it is refused before, or there is one already. Or the hash it
saves is for another node's proposal, and is the one that the later requests carry. -/
def Harmless (n : Node) (js : Json) (now : ℕ) (s : NodeState) (later : List ServerEvent) : Prop :=
  ∀ h ∈ (blockProposalRequestHeader n js).toOption,
    (refuseProposal n s h now).isSome = true ∨ (s.proposalHashDB h.key).isSome = true ∨
      h.proposerIndex ≠ n.me ∧ ∀ e ∈ later, e.SameHash n h

instance (n : Node) (js : Json) (now : ℕ) (s : NodeState) (later : List ServerEvent) :
    Decidable (Harmless n js now s later) :=
  inferInstanceAs (Decidable (∀ h ∈ (blockProposalRequestHeader n js).toOption, _))

/-- The open request `h` of this client succeeds. -/
def Accepts (n : Node) (order : Iteration n.cm.blake3) (s : ServerState)
    (h : BlockProposalRequestHeader) (client : Client) (meanwhile : ℕ → List Transaction) : Prop :=
  h ∈ s.node.requests ∧ client.hashes.length = h.txCount ∧
    outcome n order s h client meanwhile = some (.success, .ok)

instance (n : Node) (order : Iteration n.cm.blake3) (s : ServerState)
    (h : BlockProposalRequestHeader) (client : Client) (meanwhile : ℕ → List Transaction) :
    Decidable (Accepts n order s h client meanwhile) :=
  inferInstanceAs (Decidable (_ ∧ _ ∧ _))

section Failed
variable {js : Json} {now : ℕ} {s : NodeState} {h : BlockProposalRequestHeader}
  {requests : List BlockProposalRequestHeader}

theorem openRequest_cases (n : Node) (js : Json) (now : ℕ) (s : NodeState) :
    (finalState (openRequest n js now) s = s ∧
        result? (openRequest n js now) s ≠ some (.proceed, .ok)) ∨
      ∃ h, blockProposalRequestHeader n js = .ok h ∧ refuseProposal n s h now = none ∧
        finalState (openRequest n js now) s =
          withRecords (h :: s.requests) (offered h.key h.hash s.proposalHashDB) s := by
  cases hread : blockProposalRequestHeader n js with
  | error e =>
    unfold openRequest
    rw [hread]
    exact .inl ⟨rfl, nofun⟩
  | ok h =>
    unfold finalState result?
    rw [openRequest_run hread]
    cases hrefuse : refuseProposal n s h now with
    | some response =>
      refine .inl ⟨rfl, fun hproceed => ?_⟩
      cases hproceed
      exact refuseProposal_ne_proceed hrefuse rfl
    | none =>
      dsimp only
      cases h.hash.isEmpty with
      | true => exact .inl ⟨rfl, nofun⟩
      | false =>
        cases hsame : (s.proposalHashDB h.key).all (· == h.hash) with
        | true => exact .inr ⟨h, rfl, hrefuse, rfl⟩
        | false =>
          refine .inl ⟨?_, nofun⟩
          cases hdb : s.proposalHashDB h.key with
          | none =>
            rw [hdb] at hsame
            cases hsame
          | some previous =>
            rw [offered_of_some hdb]
            rfl

theorem twin_opened (h : BlockProposalRequestHeader) (s : NodeState) :
    Twin h [h] (h :: s.requests) (offered h.key h.hash s.proposalHashDB) s := by
  refine ⟨List.Subperm.refl _, ?_⟩
  cases hdb : s.proposalHashDB h.key with
  | some previous => exact .inl (offered_of_some hdb h.hash)
  | none =>
    rw [offered_of_none hdb]
    exact .inr ⟨Function.update_self .., hdb, fun key hne => Function.update_of_ne hne ..⟩

theorem sure_of_harmless {later : List ServerEvent}
    (hread : blockProposalRequestHeader n js = .ok h) (hopen : refuseProposal n s h now = none)
    (hharmless : Harmless n js now s later) :
    Sure n h (offered h.key h.hash s.proposalHashDB) s later := by
  have hmem : h ∈ (blockProposalRequestHeader n js).toOption := by
    rw [hread]
    rfl
  rcases hharmless h hmem with hrefused | hsaved | hother
  · rw [hopen] at hrefused
    cases hrefused
  · obtain ⟨previous, hdb⟩ := Option.isSome_iff_exists.mp hsaved
    exact .inl (offered_of_some hdb h.hash)
  · exact .inr hother

/-- The request is over, and its place in the list free. -/
theorem Twin.close {db : ProtocolKey → Option Bytes} (ht : Twin h [h] requests db s) :
    Twin h [] (requests.erase h) db s := by
  have herase := ht.requests.erase h
  rw [List.singleton_append, List.erase_cons_head] at herase
  exact ⟨herase, ht.hashes⟩

theorem Twin.forget {db : ProtocolKey → Option Bytes} (ht : Twin h [h] requests db s) :
    Twin h [] requests db s :=
  ⟨(List.sublist_cons_self h s.requests).subperm.trans ht.requests, ht.hashes⟩

end Failed

section Runs
variable {order : Iteration n.cm.blake3} {js : Json} {now : ℕ} {mid ending later : List ServerEvent}
  {s t t' : ServerState} {F : Set Transaction}

theorem serverStep_drop {h : BlockProposalRequestHeader}
    (hend : serverStep n order (.node (.drop h)) t = some t') :
    t' = ⟨{t.node with requests := t.node.requests.erase h}, t.known⟩ := by
  obtain ⟨node', hnode', rfl⟩ := Option.map_eq_some_iff.mp hend
  simp only [ServerEvent.resolved, Option.elim_some, nodeStep] at hnode'
  split_ifs at hnode'
  obtain rfl := Option.some.inj hnode'
  rfl

/-- A request that fails takes itself off the list, and leaves what its client sent. -/
theorem serverStep_exchange {h : BlockProposalRequestHeader} {client : Client}
    {meanwhile : ℕ → List Transaction} (hread : blockProposalRequestHeader n js = .ok h)
    (hresult : outcome n order t h client meanwhile ≠ some (.success, .ok))
    (hend : serverStep n order (.exchange h client meanwhile) t = some t') :
    t' = ⟨{t.node with requests := t.node.requests.erase h},
      (exchange order t.known client meanwhile).2⟩ := by
  unfold serverStep at hend
  split_ifs at hend
  obtain ⟨node', hnode', rfl⟩ := Option.map_eq_some_iff.mp hend
  unfold outcome at hresult
  unfold ServerEvent.resolved at hnode'
  cases hlist : (exchange order t.known client meanwhile).1 with
  | none =>
    simp only [hlist, Option.elim_some, nodeStep] at hnode'
    split_ifs at hnode'
    obtain rfl := Option.some.inj hnode'
    rfl
  | some transactions =>
    simp only [hlist, Option.elim_some, nodeStep] at hnode'
    rw [hlist, Option.bind_some] at hresult
    split_ifs at hnode'
    rw [finalState_of_not_success (of_blockProposalRequestHeader hread).index hresult] at hnode'
    obtain rfl := Option.some.inj hnode'
    rfl

theorem Failed.beside (hfailed : Failed n order js now mid s ending t)
    (hharmless : Harmless n js now s.node (mid ++ later)) (hF : F.InjOn (poolKey n.cm.blake3))
    (hknown : Holds n.cm.blake3 F s.known) (hmid : ∀ e ∈ mid, Telling n F e)
    (hending : ∀ e ∈ ending, e.Within F) (hmid' : (server n order).runFrom s mid = some t') :
    t = t' ∨ ∃ h, Beside n F h [] later t t' := by
  rcases openRequest_cases n js now s.node with ⟨hsame, hrefused⟩ | ⟨h, hread, hopen, hstart⟩
  · cases hfailed with
    | unheard hrun =>
      unfold ServerState.opened at hrun
      rw [hsame, hmid'] at hrun
      exact .inl (Option.some.inj hrun).symm
    | dropped _ hproceed => exact absurd hproceed hrefused
    | bad _ hproceed => exact absurd hproceed hrefused
  · have hsure := sure_of_harmless hread hopen hharmless
    have hopened : Beside n F h [h] (mid ++ later) (s.opened n js now) s :=
      ⟨⟨_, _, hstart, twin_opened h s.node, hsure⟩, hknown, hknown⟩
    -- the state at the end of the steps, with the request still open
    have hbefore : ∀ t₁, (server n order).runFrom (s.opened n js now) mid = some t₁ →
        .node .restart ∉ mid → Beside n F h [h] later t₁ t' := by
      intro t₁ hrun halive
      obtain ⟨w, hw, hbeside⟩ := hopened.run hF hmid (fun he => absurd he halive) hmid'
      rw [hw] at hrun
      exact Option.some.inj hrun ▸ hbeside
    refine .inr ⟨h, ?_⟩
    cases hfailed with
    | unheard hrun =>
      have hforgotten : Beside n F h [] (mid ++ later) (s.opened n js now) s :=
        ⟨⟨_, _, hstart, (twin_opened h s.node).forget, hsure⟩, hknown, hknown⟩
      obtain ⟨w, hw, hbeside⟩ := hforgotten.run hF hmid (fun _ => rfl) hmid'
      rw [hw] at hrun
      exact Option.some.inj hrun ▸ hbeside
    | @dropped h' t₁ _ hread' hproceed hrun halive hend =>
      obtain rfl : h = h' := Except.ok.inj (hread.symm.trans hread')
      obtain ⟨⟨requests, db, hnode, ht, hsure⟩, hwith, hwithout⟩ := hbefore t₁ hrun halive
      obtain rfl := serverStep_drop hend
      refine ⟨⟨requests.erase h, db, ?_, ht.close, hsure⟩, hwith, hwithout⟩
      rw [hnode]
      rfl
    | @bad h' client meanwhile t₁ _ hread' hproceed hrun halive hresult hend =>
      obtain rfl : h = h' := Except.ok.inj (hread.symm.trans hread')
      obtain ⟨⟨requests, db, hnode, ht, hsure⟩, hwith, hwithout⟩ := hbefore t₁ hrun halive
      obtain rfl := serverStep_exchange hread hresult hend
      have hclient := hending _ (List.mem_singleton_self _)
      refine ⟨⟨requests.erase h, db, ?_, ht.close, hsure⟩,
        hwith.exchange order hclient.1 hclient.2, hwithout⟩
      rw [hnode]
      rfl

/-- A request that failed and was harmless keeps no later request from being accepted, if no two
transactions that are about have one partial hash and the later clients answer. -/
theorem accepts_of_failed (hfailed : Failed n order js now mid s ending t)
    {post : List ServerEvent} {a b : ServerState}
    (hwith : (server n order).runFrom t post = some a)
    (hwithout : (server n order).runFrom s (mid ++ post) = some b)
    (hharmless : Harmless n js now s.node (mid ++ post)) (hF : F.InjOn (poolKey n.cm.blake3))
    (hknown : Holds n.cm.blake3 F s.known) (hending : ∀ e ∈ ending, e.Within F)
    {h : BlockProposalRequestHeader} {client : Client} {meanwhile : ℕ → List Transaction}
    (htelling : ∀ e ∈ mid ++ post ++ [.exchange h client meanwhile], Telling n F e)
    (haccepts : Accepts n order b h client meanwhile) :
    Accepts n order a h client meanwhile := by
  rw [Machine.runFrom_append] at hwithout
  obtain ⟨t', hmid', hpost⟩ := Option.bind_eq_some_iff.mp hwithout
  have hbefore : ∀ e ∈ mid ++ post, Telling n F e :=
    fun e he => htelling e (List.mem_append_left _ he)
  rcases hfailed.beside hharmless hF hknown
    (fun e he => hbefore e (List.mem_append_left _ he)) hending hmid' with rfl | ⟨h₁, hbeside⟩
  · rw [hpost] at hwith
    exact Option.some.inj hwith ▸ haccepts
  · rw [← List.append_nil post] at hbeside
    obtain ⟨w, hw, ⟨requests, db, hnode, ht, -⟩, hholds, hholds'⟩ := hbeside.run hF
      (fun e he => hbefore e (List.mem_append_right _ he)) (fun _ => rfl) hpost
    rw [hw] at hwith
    cases hwith
    obtain ⟨hmem, hlength, hresult⟩ := haccepts
    obtain ⟨⟨hmeanwhile, hclient⟩, hanswers⟩ :=
      htelling (.exchange h client meanwhile) (List.mem_append_right _ (List.mem_singleton_self _))
    refine ⟨hnode ▸ ht.mem hmem, hlength, ?_⟩
    unfold outcome at hresult ⊢
    rw [exchange_eq order hF hholds hholds' hmeanwhile hclient hanswers, ← hresult, hnode]
    refine congrArg (Option.bind _) (funext fun transactions => ?_)
    exact result?_of_mapState (finishRequest_run h transactions b.node)

end Runs

/-! ### Node 2 offers its proposal to node 1 -/

abbrev firstNode : Node := fourNodes.node 1

def ownFirst : List NodeEvent := [.build (firstDraft 1), .store, .save, .sign]

/-- The map is iterated in the order of what was sent. -/
def inOrder (blake3 : Bytes → Hash) : Iteration blake3 where
  items sent := sent.filter fun t =>
    decide (Reconcile.received (poolKey blake3) sent (poolKey blake3 t) = some t)
  mem_items sent t := by
    rw [List.mem_filter, decide_eq_true_iff]
    exact ⟨And.right, fun h => ⟨(Reconcile.mem_of_received h).1, h⟩⟩

abbrev firstServer : Machine ServerState ServerEvent :=
  server firstNode (inOrder firstNode.cm.blake3)

def offerFrom2 (h : BlockProposalRequestHeader) : ServerEvent :=
  .node (.request h.addFields (MODERN_TIME + 1))

/-- Node 1 after the header `h`. -/
def ServerState.offered (s : ServerState) (h : BlockProposalRequestHeader) : ServerState :=
  s.opened firstNode h.addFields (MODERN_TIME + 1)

/-- The header `h` can be read and is told to proceed. -/
def ToldToProceed (h : BlockProposalRequestHeader) (s : ServerState) : Prop :=
  (blockProposalRequestHeader firstNode h.addFields).toOption = some h ∧
    result? (openRequest firstNode h.addFields (MODERN_TIME + 1)) s.node = some (.proceed, .ok)

instance (h : BlockProposalRequestHeader) (s : ServerState) : Decidable (ToldToProceed h s) :=
  inferInstanceAs (Decidable (_ ∧ _))

theorem ToldToProceed.read {s : ServerState} (hproceed : ToldToProceed h s) :
    blockProposalRequestHeader firstNode h.addFields = .ok h := by
  have hread := hproceed.1
  cases hheader : blockProposalRequestHeader firstNode h.addFields with
  | error e =>
    rw [hheader] at hread
    cases hread
  | ok h' =>
    rw [hheader] at hread
    exact congrArg _ (Option.some.inj hread)

/-- Node 2's proposal has no transactions. -/
def noTransactions : Client := ⟨[], fun _ => none⟩

/-- Node 2's header with one transaction too many. -/
def planting : BlockProposalRequestHeader := {firstRequest 2 with txCount := 1}

def planter : Client :=
  ⟨[seven.partialHash firstNode.cm.blake3], fun _ => some [seven]⟩

theorem telling_noTransactions (F : Set Transaction) (h : BlockProposalRequestHeader) :
    Telling firstNode F (.exchange h noTransactions fun _ => []) :=
  ⟨⟨nofun, nofun⟩, fun _ hasked hne => absurd (List.sublist_nil.mp hasked) hne⟩

/-- After a request that left a transaction behind node 2 offers its proposal. -/
theorem accepts_after_planted : ∃ s t a, firstServer.run (ownFirst.map .node) = some s ∧
    Failed firstNode (inOrder _) planting.addFields (MODERN_TIME + 1) [] s
      [.exchange planting planter fun _ => []] t ∧
    firstServer.runFrom t [offerFrom2 (firstRequest 2)] = some a ∧
    Accepts firstNode (inOrder _) a (firstRequest 2) noTransactions fun _ => [] := by
  obtain ⟨s, hrun, hproceed, hresult, hend, hempty, hharmless, haccepts⟩ : ∃ s,
      firstServer.run (ownFirst.map .node) = some s ∧ ToldToProceed planting s ∧
      outcome firstNode (inOrder _) (s.offered planting) planting planter (fun _ => []) ≠
        some (.success, .ok) ∧
      (serverStep firstNode (inOrder _) (.exchange planting planter fun _ => [])
        (s.offered planting)).isSome = true ∧
      s.known.knownTransactions = [] ∧
      Harmless firstNode planting.addFields (MODERN_TIME + 1) s.node
        [offerFrom2 (firstRequest 2)] ∧
      Accepts firstNode (inOrder _) (s.offered (firstRequest 2)) (firstRequest 2) noTransactions
        fun _ => [] :=
    Machine.exists_run (by decide +kernel)
  obtain ⟨t, ht⟩ := Option.isSome_iff_exists.mp hend
  have hfailed := Failed.bad hproceed.read hproceed.2 rfl List.not_mem_nil hresult ht
  have hF : ({seven} : Set Transaction).InjOn (poolKey firstNode.cm.blake3) :=
    Set.injOn_singleton _ _
  refine ⟨s, t, _, hrun, hfailed, rfl, accepts_of_failed hfailed rfl rfl hharmless hF ?_ ?_ ?_
    haccepts⟩
  · intro e he
    rw [hempty] at he
    cases he
  · intro e he
    obtain rfl := List.mem_singleton.mp he
    refine ⟨nofun, fun _ sent hsent u hu => ?_⟩
    cases hsent
    exact List.mem_singleton.mp hu
  · intro e he
    obtain rfl | rfl := List.mem_pair.mp he
    · exact ⟨trivial, trivial⟩
    · exact telling_noTransactions _ _

/-- A header that anybody can write: the proposer and block of node 2's proposal, and
another hash. -/
def garbled : BlockProposalRequestHeader := {firstRequest 2 with hash := textBytes "00"}

/-- After a garbled header in its name node 2's proposal is not taken any more. -/
theorem not_accepts_after_garbled : ∃ s t a b, firstServer.run (ownFirst.map .node) = some s ∧
    Failed firstNode (inOrder _) garbled.addFields (MODERN_TIME + 1) [] s
      [.node (.drop garbled)] t ∧
    firstServer.runFrom t [offerFrom2 (firstRequest 2)] = some a ∧
    firstServer.runFrom s [offerFrom2 (firstRequest 2)] = some b ∧
    (Accepts firstNode (inOrder _) b (firstRequest 2) noTransactions fun _ => []) ∧
    ¬ Accepts firstNode (inOrder _) a (firstRequest 2) noTransactions fun _ => [] := by
  obtain ⟨s, hrun, hproceed, hend, haccepts⟩ : ∃ s,
      firstServer.run (ownFirst.map .node) = some s ∧ ToldToProceed garbled s ∧
      (∃ t ∈ serverStep firstNode (inOrder _) (.node (.drop garbled)) (s.offered garbled),
        ¬ Accepts firstNode (inOrder _) (t.offered (firstRequest 2)) (firstRequest 2)
          noTransactions fun _ => []) ∧
      Accepts firstNode (inOrder _) (s.offered (firstRequest 2)) (firstRequest 2) noTransactions
        fun _ => [] :=
    Machine.exists_run (by decide +kernel)
  obtain ⟨t, ht, hnot⟩ := hend
  exact ⟨s, t, _, _, hrun, .dropped hproceed.read hproceed.2 rfl List.not_mem_nil ht, rfl, rfl,
    haccepts, hnot⟩

end SkaleConsensus.Proposal
