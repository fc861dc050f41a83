import SkaleConsensus.Proposal.Server

/-! What a step of a node can do.

`Effect` lists it once, case by case with the state that is left; `effect_of_nodeStep`
says that the list is complete. Invariants of nodes are proved against the list. -/
namespace SkaleConsensus.Proposal
open Library Block Crypto ProposalCaches

variable {n : Node} {s : NodeState} {h : BlockProposalRequestHeader} {proposal : BlockProposal}
  {response : Response}

/-! ### The stores -/

def stored (n : Node) (proposal : BlockProposal) (s : NodeState) : NodeState :=
  {s with
    proposalCaches := s.proposalCaches.add proposal
    proposalDB :=
      if proposal.proposerIndex = n.me then
        Function.update s.proposalDB proposal.blockID
          ((s.proposalDB proposal.blockID).or (some proposal))
      else s.proposalDB}

theorem slot_of_stored {p q : BlockProposal} {i : SchainIndex}
    (h : (stored n p s).proposalCaches.slot i = some q) :
    s.proposalCaches.slot i = some q ∨ q = p ∧ p.proposerIndex = i := by
  by_cases hi : i = p.proposerIndex
  · subst hi
    rcases slot_add_self s.proposalCaches p with hadd | ⟨previous, hprevious, -, hadd⟩
    · exact .inr ⟨Option.some.inj (h.symm.trans hadd), rfl⟩
    · obtain rfl := Option.some.inj (h.symm.trans hadd)
      exact .inl hprevious
  · exact .inl ((slot_add_of_ne hi).symm.trans h)

theorem addBlockProposal_run_of_le (hle : proposal.proposerIndex ≤ n.cm.nodeCount)
    (hpos : 0 < proposal.proposerIndex) :
    (addBlockProposal n proposal).run s = .ok () (stored n proposal s) := by
  unfold addBlockProposal
  rw [EStateM.run_bind, checkState_run_of_true (decide_eq_true hle)]
  dsimp only
  rw [EStateM.run_bind, checkState_run_of_true (decide_eq_true hpos)]
  unfold stored
  by_cases hme : proposal.proposerIndex = n.me
  · rw [if_pos hme, if_pos hme]
    rfl
  · rw [if_neg hme, if_neg hme]
    rfl

/-- Any other is refused. -/
theorem addBlockProposal_run (proposal : BlockProposal) :
    (addBlockProposal n proposal).run s = .ok () (stored n proposal s) ∨
      ∃ e, (addBlockProposal n proposal).run s = .error e s := by
  by_cases hle : proposal.proposerIndex ≤ n.cm.nodeCount
  · by_cases hpos : 0 < proposal.proposerIndex
    · exact .inl (addBlockProposal_run_of_le hle hpos)
    · unfold addBlockProposal
      rw [EStateM.run_bind, checkState_run_of_true (decide_eq_true hle)]
      dsimp only
      rw [EStateM.run_bind, checkState_run_of_false (decide_eq_false hpos)]
      exact .inr ⟨_, rfl⟩
  · unfold addBlockProposal
    rw [EStateM.run_bind, checkState_run_of_false (decide_eq_false hle)]
    exact .inr ⟨_, rfl⟩

/-- A proposal for a block that is committed is left alone, one that is refused too. -/
theorem proposedBlockArrived_run (proposal : BlockProposal) :
    ((proposedBlockArrived n proposal).run s = .ok () s ∧
        ¬ s.lastCommittedBlockID < proposal.blockID) ∨
      (∃ e, (proposedBlockArrived n proposal).run s = .error e s) ∨
      (proposedBlockArrived n proposal).run s = .ok () (stored n proposal s) := by
  unfold proposedBlockArrived
  rw [run_get_bind]
  split_ifs with hnew
  · exact .inr (addBlockProposal_run proposal).symm
  · exact .inl ⟨rfl, hnew⟩

theorem finalState_proposedBlockArrived (proposal : BlockProposal) :
    finalState (proposedBlockArrived n proposal) s = s ∨
      finalState (proposedBlockArrived n proposal) s = stored n proposal s := by
  rcases proposedBlockArrived_run (n := n) (s := s) proposal with ⟨hrun, -⟩ | ⟨e, hrun⟩ | hrun
  · exact .inl (finalState_of_ok hrun)
  · exact .inl (finalState_of_error hrun)
  · exact .inr (finalState_of_ok hrun)

/-- The hashes that were saved still are. -/
def HashesKept (s : NodeState) (db : ProtocolKey → Option Bytes) : Prop :=
  ∀ k v, s.proposalHashDB k = some v → db k = some v

/-- The hashes after one was offered: the first stays. -/
def offered (key : ProtocolKey) (hash : Bytes) (db : ProtocolKey → Option Bytes) :
    ProtocolKey → Option Bytes :=
  Function.update db key ((db key).or (some hash))

theorem offered_of_some {key : ProtocolKey} {previous : Bytes} {db : ProtocolKey → Option Bytes}
    (h : db key = some previous) (hash : Bytes) : offered key hash db = db := by
  unfold offered
  rw [h, Option.some_or, ← h, Function.update_eq_self]

theorem offered_of_none {key : ProtocolKey} {db : ProtocolKey → Option Bytes} (h : db key = none)
    (hash : Bytes) : offered key hash db = Function.update db key (some hash) := by
  unfold offered
  rw [h, Option.none_or]

theorem hashesKept_offered (key : ProtocolKey) (hash : Bytes) :
    HashesKept s (offered key hash s.proposalHashDB) := by
  intro k v hv
  unfold offered
  rcases eq_or_ne k key with rfl | hne
  · rw [Function.update_self, hv, Option.some_or]
  · rw [Function.update_of_ne hne, hv]

theorem checkAndSaveHash_run (key : ProtocolKey) (hash : Bytes) :
    (checkAndSaveHash key hash).run s =
      if hash.isEmpty then .error "Argument Check failed:!_proposalHash.empty()" s
      else .ok ((s.proposalHashDB key).all (· == hash))
        {s with proposalHashDB := offered key hash s.proposalHashDB} := by
  unfold checkAndSaveHash
  rw [EStateM.run_bind]
  cases hash.isEmpty with
  | true => rfl
  | false =>
    show EStateM.run (get >>= _) s = .ok ((s.proposalHashDB key).all (· == hash))
      {s with proposalHashDB := offered key hash s.proposalHashDB}
    rw [run_get_bind]
    cases hdb : s.proposalHashDB key with
    | none =>
      rw [offered_of_none hdb]
      rfl
    | some previous =>
      rw [offered_of_some hdb]
      rfl

/-! ### Requests -/

/-- None of these answers is `CONNECTION_PROCEED`. -/
def Refusing (answer : Option Response) : Prop := ∀ response ∈ answer, response.1 ≠ .proceed

theorem refusing_some (h : response.1 ≠ .proceed) :
    Refusing (some response) := by
  rintro _ ⟨⟩
  exact h

theorem Refusing.ite {c : Prop} [Decidable c] {rest : Option Response} (hrest : Refusing rest)
    (h : response.1 ≠ .proceed) :
    Refusing (if c then some response else rest) := by
  split_ifs
  · exact refusing_some h
  · exact hrest

theorem refuseProposal_ne_proceed {now : ℕ} (hrefuse : refuseProposal n s h now = some response) :
    response.1 ≠ .proceed := by
  suffices hall : Refusing (refuseProposal n s h now) from hall response hrefuse
  unfold refuseProposal
  refine Refusing.ite ?_ nofun
  cases n.nodeInfosById h.proposerNodeID with
  | none => exact refusing_some nofun
  | some nmi =>
    dsimp only
    refine Refusing.ite (Refusing.ite (Refusing.ite (Refusing.ite ?_ nofun) nofun) nofun) nofun
    cases getBlockProposal n s h.blockID n.me with
    | none => exact refusing_some nofun
    | some myBlockProposal =>
      dsimp only
      refine Refusing.ite (Refusing.ite (Refusing.ite (Refusing.ite (Refusing.ite ?_ nofun) nofun)
        nofun) nofun) nofun
      exact fun _ => nofun

theorem createProposalResponseHeader_run (h : BlockProposalRequestHeader) (now : ℕ) :
    (createProposalResponseHeader n h now).run s =
      match refuseProposal n s h now with
      | some response => .ok response s
      | none =>
        if h.hash.isEmpty then .error "Argument Check failed:!_proposalHash.empty()" s
        else .ok
          (if (s.proposalHashDB h.key).all (· == h.hash) then (.proceed, .ok)
            else (.disconnect, .doubleProposal))
          {s with proposalHashDB := offered h.key h.hash s.proposalHashDB} := by
  unfold createProposalResponseHeader
  rw [run_get_bind]
  cases refuseProposal n s h now with
  | some response => rfl
  | none =>
    dsimp only
    rw [EStateM.run_bind, checkAndSaveHash_run]
    cases h.hash.isEmpty with
    | true => rfl
    | false => cases (s.proposalHashDB h.key).all (· == h.hash) <;> rfl

/-- The answer to a header that was read. -/
theorem openRequest_run {js : Json} (hread : blockProposalRequestHeader n js = .ok h) (now : ℕ) :
    (openRequest n js now).run s =
      match refuseProposal n s h now with
      | some response => .ok response s
      | none =>
        if h.hash.isEmpty then .error "Couldnt create proposal response header" s
        else if (s.proposalHashDB h.key).all (· == h.hash) then
          .ok (.proceed, .ok) {s with
            proposalHashDB := offered h.key h.hash s.proposalHashDB, requests := h :: s.requests}
        else .ok (.disconnect, .doubleProposal)
          {s with proposalHashDB := offered h.key h.hash s.proposalHashDB} := by
  unfold openRequest
  rw [hread]
  dsimp only
  rw [EStateM.run_bind]
  have hheader := createProposalResponseHeader_run (n := n) (s := s) h now
  unfold EStateM.run at hheader
  unfold EStateM.adaptExcept EStateM.run
  dsimp only
  rw [hheader]
  cases hrefuse : refuseProposal n s h now with
  | some response =>
    dsimp only
    rw [if_neg (refuseProposal_ne_proceed hrefuse)]
    rfl
  | none =>
    dsimp only
    cases h.hash.isEmpty with
    | true => rfl
    | false => cases (s.proposalHashDB h.key).all (· == h.hash) <;> rfl

/-- A request changes nothing, or it is told to proceed and its hash is the one saved. -/
theorem finalState_openRequest (js : Json) (now : ℕ) :
    finalState (openRequest n js now) s = s ∨
      ∃ h db, finalState (openRequest n js now) s =
          {s with proposalHashDB := db, requests := h :: s.requests} ∧
        db h.key = some h.hash ∧ HashesKept s db := by
  cases hread : blockProposalRequestHeader n js with
  | error e =>
    unfold openRequest
    rw [hread]
    exact .inl rfl
  | ok h =>
    unfold finalState
    rw [openRequest_run hread]
    cases refuseProposal n s h now with
    | some response => exact .inl rfl
    | none =>
      dsimp only
      cases h.hash.isEmpty with
      | true => exact .inl rfl
      | false =>
        cases hdb : s.proposalHashDB h.key with
        | none =>
          refine .inr ⟨h, _, rfl, ?_, hashesKept_offered h.key h.hash⟩
          rw [offered_of_none hdb, Function.update_self]
        | some previous =>
          rw [Option.all_some, offered_of_some hdb]
          cases heq : previous == h.hash with
          | true => exact .inr ⟨h, _, rfl, by rw [hdb, eq_of_beq heq], fun _ _ hv => hv⟩
          | false => exact .inl rfl

theorem of_receivedBlockProposal {transactions : List Transaction}
    (hok : receivedBlockProposal n h transactions = .ok proposal) :
    proposal.blockID = h.blockID ∧ proposal.proposerIndex = h.proposerIndex := by
  obtain ⟨nodeID, hmake⟩ := after_bind hok
  have hfields := BlockProposal.of_make_eq_ok hmake
  constructor
  · rw [hfields]
    rfl
  · rw [hfields]
    rfl

/-- A request that is finished is closed; one with a good signature is signed for before
it is stored. -/
theorem finalState_finishRequest (h : BlockProposalRequestHeader)
    (transactions : List Transaction) :
    finalState (finishRequest n h transactions) s = {s with requests := s.requests.erase h} ∨
      ∃ proposal, receivedBlockProposal n h transactions = .ok proposal ∧
        proposal.verifyProposalECDSA n.cm h.hash h.signature = .ok () ∧
        finalState (finishRequest n h transactions) s =
          finalState (proposedBlockArrived n proposal)
            {s with
              requests := s.requests.erase h
              daSigned := (h.key, proposal.hash n.cm.blake3) :: s.daSigned} := by
  unfold finishRequest
  rw [finalState_bind_of_ok (x := modify _) (a := ()) rfl]
  cases htime : decide (0 < h.timeStamp) with
  | false => exact .inl (finalState_bind_of_error (checkState_run_of_false rfl _ _))
  | true =>
    rw [finalState_bind_of_ok (checkState_run_of_true rfl _ _)]
    cases hreceived : receivedBlockProposal n h transactions with
    | error e => exact .inl rfl
    | ok proposal =>
      dsimp only
      cases hverify : proposal.verifyProposalECDSA n.cm h.hash h.signature with
      | error e => exact .inl rfl
      | ok u =>
        refine .inr ⟨proposal, rfl, hverify, ?_⟩
        dsimp only
        rw [finalState_bind_of_ok (x := signDAProof n proposal) (a := ()) rfl,
          finalState_bind_pure, finalState_adaptExcept]
        obtain ⟨hblock, hindex⟩ := of_receivedBlockProposal hreceived
        rw [hblock, hindex]
        rfl

/-! ### DA proofs -/

/-- Only DA proofs and session keys differ. -/
def SameProposals (s s' : NodeState) : Prop :=
  ∃ c db, s' = {s with sessionPublicKeys := c, daProofDB := db}

theorem SameProposals.refl (s : NodeState) : SameProposals s s := ⟨_, _, rfl⟩

theorem SameProposals.trans {s₁ s₂ s₃ : NodeState} (h : SameProposals s₁ s₂)
    (h' : SameProposals s₂ s₃) : SameProposals s₁ s₃ := by
  obtain ⟨c, db, rfl⟩ := h
  obtain ⟨c', db', rfl⟩ := h'
  exact ⟨c', db', rfl⟩

theorem sameProposals_daProofArrived (key : ProtocolKey) (signature : Bytes) :
    SameProposals s (finalState (daProofArrived key signature) s) := by
  show SameProposals s (if key.blockID ≤ s.lastCommittedBlockID then s else _)
  split_ifs
  · exact .refl s
  · exact ⟨_, _, rfl⟩

theorem sameProposals_storeDAProof (h : SubmitDAProofRequestHeader) :
    SameProposals s (finalState (storeDAProof n h) s) := by
  unfold storeDAProof
  rw [finalState_get_bind]
  cases getBlockProposal n s h.blockID h.proposerIndex with
  | none => exact .refl s
  | some proposal =>
    dsimp only
    split_ifs
    · exact .refl s
    · exact .refl s
    · exact sameProposals_daProofArrived _ _

theorem sameProposals_withSessionKeys {α : Type} (x : EStateM String SessionCache α) :
    SameProposals s
      (finalState (returned (withSessionKeys x) : EStateM String NodeState Bool) s) := by
  unfold finalState returned withSessionKeys EStateM.run
  dsimp only
  cases x s.sessionPublicKeys <;> exact ⟨_, _, rfl⟩

theorem sameProposals_processDAProofRequest (js : Json) :
    SameProposals s (finalState (processDAProofRequest n js) s) := by
  unfold processDAProofRequest
  cases submitDAProofRequestHeader n js with
  | error e => exact .refl s
  | ok h =>
    dsimp only
    rw [finalState_adaptExcept]
    unfold createDAProofResponseHeader
    rw [finalState_get_bind]
    cases refuseDAProof n s h with
    | error e => exact .refl s
    | ok refused =>
      cases refused with
      | some response => exact .refl s
      | none =>
        dsimp only
        cases fromHex h.blockHash with
        | error e => exact .refl s
        | ok blockHash =>
          refine finalState_bind_rel SameProposals.trans (sameProposals_withSessionKeys _) ?_
          intro verified s' _
          cases verified with
          | true => exact sameProposals_storeDAProof h
          | false => exact .refl s'

/-! ### Own proposals -/

section HolderAfter
variable {α : Type} {x : EStateM String NodeState α} {next : α → Holder} {s' : NodeState}

theorem holderAfter_of_ok {a : α} (h : x.run s = .ok a s') :
    holderAfter x next s = {s' with holder := next a} := by
  unfold holderAfter finalState result?
  rw [h]
  rfl

theorem holderAfter_of_error {e : String} (h : x.run s = .error e s') :
    holderAfter x next s = {s' with holder := .nobody} := by
  unfold holderAfter finalState result?
  rw [h]
  rfl

end HolderAfter

theorem of_myBlockProposal {blockID : ℕ} {d : Draft}
    (hok : myBlockProposal n blockID d = .ok proposal) :
    proposal.blockID = blockID ∧ proposal.proposerIndex = n.me := by
  obtain ⟨nodeID, hmake⟩ := after_bind hok
  have hfields := BlockProposal.of_make_eq_ok hmake
  constructor
  · rw [hfields]
    rfl
  · rw [hfields]
    rfl

/-- `proposeNextBlock` fails, or finds the node's proposal, or makes one. -/
theorem holderAfter_nextProposal (d : Draft) :
    holderAfter (nextProposal n d) .built s = {s with holder := .nobody} ∨
      (∃ p, getBlockProposal n s (s.lastCommittedBlockID + 1) n.me = some p ∧
        p.proposerIndex = n.me ∧
        holderAfter (nextProposal n d) .built s = {s with holder := .built p}) ∨
      ∃ p, myBlockProposal n (s.lastCommittedBlockID + 1) d = .ok p ∧
        s.proposalHashDB ⟨s.lastCommittedBlockID + 1, n.me⟩ = none ∧
        holderAfter (nextProposal n d) .built s =
          {s with proposed := p :: s.proposed, holder := .built p} := by
  have hrun : (nextProposal n d).run s = EStateM.run
      (if (s.proposalHashDB ⟨s.lastCommittedBlockID + 1, n.me⟩).isSome then _ else _) s := rfl
  cases hhave : (s.proposalHashDB ⟨s.lastCommittedBlockID + 1, n.me⟩).isSome with
  | true =>
    rw [hhave, if_pos rfl] at hrun
    cases hget : getBlockProposal n s (s.lastCommittedBlockID + 1) n.me with
    | none =>
      rw [hget] at hrun
      exact .inl (holderAfter_of_error hrun)
    | some p =>
      rw [hget] at hrun
      by_cases hme : p.proposerIndex = n.me
      · refine .inr (.inl ⟨p, rfl, hme, holderAfter_of_ok (a := p) ?_⟩)
        rw [hrun, EStateM.run_bind, checkState_run_of_true (decide_eq_true hme)]
        rfl
      · have herror : (nextProposal n d).run s = .error ("State check failed::" ++
            "myProposal->getProposerIndex() == getSchainIndex()") s := by
          rw [hrun, EStateM.run_bind, checkState_run_of_false (decide_eq_false hme)]
        exact .inl (holderAfter_of_error herror)
  | false =>
    rw [hhave, if_neg Bool.false_ne_true] at hrun
    cases hmake : myBlockProposal n (s.lastCommittedBlockID + 1) d with
    | error e =>
      rw [hmake] at hrun
      exact .inl (holderAfter_of_error hrun)
    | ok p =>
      rw [hmake] at hrun
      exact .inr (.inr ⟨p, rfl, Option.not_isSome_iff_eq_none.mp (by rw [hhave]; nofun),
        holderAfter_of_ok hrun⟩)

/-! ### Every step -/

def signedFor (n : Node) (h : BlockProposalRequestHeader) (p : BlockProposal) (s : NodeState) :
    NodeState :=
  {s with
    requests := s.requests.erase h
    daSigned := (h.key, p.hash n.cm.blake3) :: s.daSigned}

inductive Effect (n : Node) (s : NodeState) : NodeEvent → NodeState → Prop
  | same {e : NodeEvent} {s' : NodeState} (h : SameProposals s s') : Effect n s e s'
  | opened {js : Json} {now : ℕ} {h : BlockProposalRequestHeader} {db : ProtocolKey → Option Bytes}
      (hhash : db h.key = some h.hash) (hkept : HashesKept s db) :
      Effect n s (.request js now) {s with proposalHashDB := db, requests := h :: s.requests}
  | closed {e : NodeEvent} {h : BlockProposalRequestHeader} :
      Effect n s e {s with requests := s.requests.erase h}
  | accepted {h : BlockProposalRequestHeader} {transactions : List Transaction}
      {p : BlockProposal} {s' : NodeState} (hrequest : h ∈ s.requests)
      (hreceived : receivedBlockProposal n h transactions = .ok p)
      (hverify : p.verifyProposalECDSA n.cm h.hash h.signature = .ok ())
      (hs' : s' = signedFor n h p s ∨ s' = stored n p (signedFor n h p s)) :
      Effect n s (.finish h transactions) s'
  | committing {block : CommittedBlock} (hholder : ∀ block', s.holder ≠ .pushing block')
      (hnext : block.blockID = s.lastCommittedBlockID + 1) :
      Effect n s (.catchup block) (startCommit block s)
  | committed {block : CommittedBlock} (hholder : s.holder = .pushing block) :
      Effect n s .pushed (endCommit block s)
  | found {d : Draft} {p : BlockProposal} (hholder : s.holder = .proposing)
      (hget : getBlockProposal n s (s.lastCommittedBlockID + 1) n.me = some p)
      (hme : p.proposerIndex = n.me) : Effect n s (.build d) {s with holder := .built p}
  | built {d : Draft} {p : BlockProposal} (hholder : s.holder = .proposing)
      (hmake : myBlockProposal n (s.lastCommittedBlockID + 1) d = .ok p)
      (hnone : s.proposalHashDB ⟨s.lastCommittedBlockID + 1, n.me⟩ = none) :
      Effect n s (.build d) {s with proposed := p :: s.proposed, holder := .built p}
  | stored {p : BlockProposal} {t : NodeState} {holder : Holder} (hholder : s.holder = .built p)
      (ht : t = s ∨ t = stored n p s) (hnext : holder = .stored p ∨ holder = .nobody)
      (hdone : holder = .stored p → s.lastCommittedBlockID < p.blockID → t = stored n p s) :
      Effect n s .store {t with holder := holder}
  | saved {p : BlockProposal} {db : ProtocolKey → Option Bytes} (hholder : s.holder = .stored p)
      (hkept : HashesKept s db) :
      Effect n s .save {s with proposalHashDB := db, holder := .saved p}
  | signed {p : BlockProposal} (hholder : s.holder = .saved p) :
      Effect n s .sign
        {s with
          daSigned := (⟨p.blockID, p.proposerIndex⟩, p.hash n.cm.blake3) :: s.daSigned
          holder := .nobody}
  | gaveUp {e : NodeEvent} (hholder : ∀ block, s.holder ≠ .pushing block) :
      Effect n s e {s with holder := .nobody}
  | restarted {last : ℕ} {stamp : TimeStamp}
      (hlast : (last = s.lastCommittedBlockID ∧ ∀ block, s.holder ≠ .pushing block) ∨
        ∃ block, s.holder = .pushing block ∧ last = block.blockID) :
      Effect n s .restart
        {s with
          lastCommittedBlockID := last, lastCommittedBlockTimeStamp := stamp,
          proposalCaches := .empty, sessionPublicKeys := .empty, requests := [],
          holder := .proposing}

theorem effect_of_nodeStep {e : NodeEvent} {s' : NodeState} (h : nodeStep n e s = some s') :
    Effect n s e s' := by
  cases e with
  | request js now =>
    cases h
    rcases finalState_openRequest (n := n) (s := s) js now with heq | ⟨hd, db, heq, hhash, hkept⟩
    · rw [heq]
      exact .same (.refl s)
    · rw [heq]
      exact .opened hhash hkept
  | finish hd transactions =>
    dsimp only [nodeStep] at h
    split_ifs at h with hguard
    cases h
    rcases finalState_finishRequest (n := n) (s := s) hd transactions with
      heq | ⟨p, hreceived, hverify, heq⟩
    · rw [heq]
      exact .closed
    · rw [heq]
      exact .accepted hguard.1 hreceived hverify (finalState_proposedBlockArrived p)
  | drop hd =>
    dsimp only [nodeStep] at h
    split_ifs at h
    cases h
    exact .closed
  | daProof js =>
    cases h
    exact .same (sameProposals_processDAProofRequest js)
  | merged p signature =>
    dsimp only [nodeStep] at h
    split_ifs at h
    cases h
    exact .same (sameProposals_daProofArrived _ _)
  | catchup block =>
    dsimp only [nodeStep] at h
    split_ifs at h with hguard
    cases h
    refine .committing (fun block' hholder => ?_) hguard.2.1
    rw [hholder] at hguard
    rcases hguard.1 with hbad | hbad <;> cases hbad
  | pushed =>
    dsimp only [nodeStep] at h
    split at h
    next block hholder =>
      cases h
      exact .committed hholder
    next => cases h
  | build d =>
    dsimp only [nodeStep] at h
    split at h
    next hholder =>
      cases h
      have hnot : ∀ block, s.holder ≠ .pushing block := fun block => by
        rw [hholder]
        nofun
      rcases holderAfter_nextProposal (n := n) (s := s) d with heq | ⟨p, hget, hme, heq⟩ |
        ⟨p, hmake, hnone, heq⟩
      · rw [heq]
        exact .gaveUp hnot
      · rw [heq]
        exact .found hholder hget hme
      · rw [heq]
        exact .built hholder hmake hnone
    next => cases h
  | store =>
    dsimp only [nodeStep] at h
    split at h
    next p hholder =>
      cases h
      rcases proposedBlockArrived_run (n := n) (s := s) p with ⟨hrun, hdone⟩ | ⟨e, hrun⟩ | hrun
      · rw [holderAfter_of_ok hrun]
        exact .stored hholder (.inl rfl) (.inl rfl) fun _ hnew => absurd hnew hdone
      · rw [holderAfter_of_error hrun]
        exact .stored hholder (.inl rfl) (.inr rfl) nofun
      · rw [holderAfter_of_ok hrun]
        exact .stored hholder (.inr rfl) (.inl rfl) fun _ _ => rfl
    next => cases h
  | save =>
    dsimp only [nodeStep] at h
    split at h
    next p hholder =>
      cases h
      have hrun := checkAndSaveHash_run (s := s) ⟨s.lastCommittedBlockID + 1, n.me⟩
        (toHex (p.hash n.cm.blake3))
      cases hempty : (toHex (p.hash n.cm.blake3)).isEmpty with
      | true =>
        rw [hempty] at hrun
        rw [holderAfter_of_error hrun]
        exact .gaveUp fun block => by
          rw [hholder]
          nofun
      | false =>
        rw [hempty] at hrun
        rw [holderAfter_of_ok hrun]
        exact .saved hholder (hashesKept_offered _ _)
    next => cases h
  | sign =>
    dsimp only [nodeStep] at h
    split at h
    next p hholder =>
      cases h
      exact .signed hholder
    next => cases h
  | abort =>
    dsimp only [nodeStep] at h
    split at h
    next => cases h
    next hnot =>
      cases h
      exact .gaveUp hnot
  | restart =>
    cases h
    unfold restarted
    split
    next block hholder => exact .restarted (.inr ⟨block, hholder, rfl⟩)
    next hnot => exact .restarted (.inl ⟨rfl, hnot⟩)

section Effect
variable {e : NodeEvent} {s' : NodeState} {p : BlockProposal}

/-- `proposeNextBlock` is at a proposal of this node. -/
def AtOwn (n : Node) (s : NodeState) : Prop := ∀ p ∈ s.holder.proposal?, p.proposerIndex = n.me

theorem AtOwn.effect (hs : AtOwn n s) (he : Effect n s e s') : AtOwn n s' := by
  intro p hp
  cases he with
  | same h =>
    obtain ⟨c, db, rfl⟩ := h
    exact hs p hp
  | opened | closed => exact hs p hp
  | accepted _ _ _ hs' => rcases hs' with rfl | rfl <;> exact hs p hp
  | committing | committed | signed | gaveUp | restarted => cases hp
  | found _ _ hme =>
    cases hp
    exact hme
  | built _ hmake =>
    cases hp
    exact (of_myBlockProposal hmake).2
  | stored hholder _ hnext =>
    rcases hnext with rfl | rfl
    · exact hs p (by rw [hholder]; exact hp)
    · cases hp
  | saved hholder =>
    exact hs p (by rw [hholder]; exact hp)

/-- The slot of another proposer is filled by its own requests only. -/
theorem slot_of_effect (hown : AtOwn n s) (he : Effect n s e s') {i : SchainIndex} (hi : i ≠ n.me)
    (h : s'.proposalCaches.slot i = some p) :
    s.proposalCaches.slot i = some p ∨
      ∃ hd transactions, e = .finish hd transactions ∧
        receivedBlockProposal n hd transactions = .ok p ∧
        p.verifyProposalECDSA n.cm hd.hash hd.signature = .ok () := by
  cases he with
  | same hsame =>
    obtain ⟨c, db, rfl⟩ := hsame
    exact .inl h
  | opened | closed | committed | found | built | saved | signed | gaveUp => exact .inl h
  | @accepted hd transactions q _ _ hreceived hverify hs' =>
    rcases hs' with rfl | rfl
    · exact .inl h
    · rcases slot_of_stored h with hold | ⟨rfl, -⟩
      · exact .inl hold
      · exact .inr ⟨hd, transactions, rfl, hreceived, hverify⟩
  | committing => exact .inl (slot_of_cleanup h)
  | @stored q t _ hholder ht hnext =>
    rcases ht with rfl | rfl
    · exact .inl h
    · rcases slot_of_stored (n := n) h with hold | ⟨-, hindex⟩
      · exact .inl hold
      · exact absurd (hindex.symm.trans (hown q (by rw [hholder]; rfl))) hi
  | restarted => cases h

/-- Blocks are committed one after the other, and a proposal in LevelDB is under its block. -/
structure Orderly (s : NodeState) : Prop where
  pushing : ∀ block, s.holder = .pushing block → block.blockID = s.lastCommittedBlockID + 1
  filed : ∀ b p, s.proposalDB b = some p → p.blockID = b

theorem orderly_genesis : Orderly .genesis := ⟨nofun, nofun⟩

theorem filed_stored (h : ∀ b q, s.proposalDB b = some q → q.blockID = b) :
    ∀ b q, (stored n p s).proposalDB b = some q → q.blockID = b := by
  intro b q hq
  dsimp only [stored] at hq
  split_ifs at hq
  · rcases eq_or_ne b p.blockID with rfl | hne
    · rw [Function.update_self] at hq
      rcases Option.or_eq_some_iff.mp hq with hold | ⟨-, hnew⟩
      · exact h _ q hold
      · rw [← Option.some.inj hnew]
    · rw [Function.update_of_ne hne] at hq
      exact h b q hq
  · exact h b q hq

theorem Orderly.effect (hs : Orderly s) (he : Effect n s e s') : Orderly s' := by
  cases he with
  | same h =>
    obtain ⟨c, db, rfl⟩ := h
    exact ⟨hs.pushing, hs.filed⟩
  | opened | closed => exact ⟨hs.pushing, hs.filed⟩
  | accepted _ _ _ hs' =>
    rcases hs' with rfl | rfl
    · exact ⟨hs.pushing, hs.filed⟩
    · exact ⟨hs.pushing, filed_stored hs.filed⟩
  | committing _ hnext =>
    refine ⟨fun block hblock => ?_, hs.filed⟩
    cases hblock
    exact hnext
  | committed | found | built | saved | signed | gaveUp | restarted => exact ⟨nofun, hs.filed⟩
  | stored _ ht hnext =>
    refine ⟨fun block hblock => ?_, ?_⟩
    · rcases hnext with rfl | rfl <;> cases hblock
    · rcases ht with rfl | rfl
      · exact hs.filed
      · exact filed_stored hs.filed

theorem lastCommittedBlockID_le_of_effect (hs : Orderly s) (he : Effect n s e s') :
    s.lastCommittedBlockID ≤ s'.lastCommittedBlockID := by
  cases he with
  | same h =>
    obtain ⟨c, db, rfl⟩ := h
    exact le_rfl
  | opened | closed | committing | found | built | saved | signed | gaveUp => exact le_rfl
  | accepted _ _ _ hs' => rcases hs' with rfl | rfl <;> exact le_rfl
  | committed hholder => exact (Nat.le_succ _).trans_eq (hs.pushing _ hholder).symm
  | stored _ ht => rcases ht with rfl | rfl <;> exact le_rfl
  | restarted hlast =>
    rcases hlast with ⟨rfl, -⟩ | ⟨block, hholder, rfl⟩
    · exact le_rfl
    · exact (Nat.le_succ _).trans_eq (hs.pushing _ hholder).symm

theorem holder_of_effect_pushing (he : Effect n s e s') (halive : e ≠ .restart)
    {block : CommittedBlock} (h : s.holder = .pushing block) :
    s'.holder = .pushing block ∨ s'.lastCommittedBlockID = block.blockID := by
  cases he with
  | same hsame =>
    obtain ⟨c, db, rfl⟩ := hsame
    exact .inl h
  | opened | closed => exact .inl h
  | accepted _ _ _ hs' => rcases hs' with rfl | rfl <;> exact .inl h
  | committing hholder => exact absurd h (hholder block)
  | committed hholder =>
    rw [h] at hholder
    cases hholder
    exact .inr rfl
  | found hholder | built hholder | stored hholder | saved hholder | signed hholder =>
    rw [h] at hholder
    cases hholder
  | gaveUp hholder => exact absurd h (hholder block)
  | restarted => exact absurd rfl halive

theorem Orderly.blockID_of_getBlockProposal (hs : Orderly s) {b : ℕ} {i : SchainIndex}
    (h : getBlockProposal n s b i = some p) : p.blockID = b := by
  rcases of_getBlockProposal h with ⟨-, hblock⟩ | ⟨-, hdb⟩
  · exact hblock
  · exact hs.filed b p hdb

end Effect

/-! ### Runs -/

/-- A node from its first start on. -/
def running (n : Node) : Machine NodeState NodeEvent where
  initial := .genesis
  step := nodeStep n

theorem atOwn_of_reachable (h : (running n).Reachable s) : AtOwn n s :=
  h.invariant nofun fun _ _ _ hs hstep => hs.effect (effect_of_nodeStep hstep)

theorem orderly_of_reachable (h : (running n).Reachable s) : Orderly s :=
  h.invariant orderly_genesis fun _ _ _ hs hstep => hs.effect (effect_of_nodeStep hstep)

end SkaleConsensus.Proposal
