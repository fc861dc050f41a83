import SkaleConsensus.Finalize.Commit

/-! What it means that the finalizing call returns.

`downloadProposal` gives `nullptr` whenever its threads have ended without all fragments,
and the call takes that to mean that the block came through catchup. But a thread also
ends when its node does not have the block, when its fragment came from another node
meanwhile, and when the proposal and its DA proof were pushed. As long as the last thread
does not end for one of these, the block is committed when the call returns. -/
namespace SkaleConsensus.Finalize
open Library Block Crypto Proposal

/-- The call has returned: without a commit, or it committed the block and has let go of
the mutex. -/
def Returned (s : FinalizeState) : Prop :=
  match s.finalizer with
  | .ended (.ok _) => True
  | .committed => s.node.holder = .nobody
  | _ => False

instance (s : FinalizeState) : Decidable (Returned s) :=
  match h : s.finalizer with
  | .ended (.ok _) => .isTrue (by rw [Returned, h]; trivial)
  | .committed => decidable_of_iff (s.node.holder = .nobody) (by rw [Returned, h])
  | .ended (.error _) | .entered | .lookingUp | .found _ | .downloading _ | .downloaded _ _
  | .committing _ => .isFalse (by rw [Returned, h]; exact id)

/-- The fragment that a thread has asked for. -/
def Worker.requested : Worker → Option ℕ
  | .requesting next => some next
  | _ => none

section Condition
variable (n : Node) (blockId : ℕ) (proposerIndex : SchainIndex)

/-- The threads of all other nodes have ended. -/
def LastWorker (d : Download) (dstIndex : SchainIndex) : Prop :=
  ∀ i ∈ List.range' 1 n.cm.nodeCount, i ≠ dstIndex → d.workers i = .stopped

instance (d : Download) (dstIndex : SchainIndex) : Decidable (LastWorker n d dstIndex) :=
  inferInstanceAs (Decidable (∀ i ∈ _, _))

/-- The download, while fragments and the block are missing. -/
def unfinished (s : FinalizeState) : Option Download :=
  match s.finalizer with
  | .downloading d =>
    if !d.fragmentList.isComplete && decide (s.node.lastCommittedBlockID < blockId) then some d
    else none
  | _ => none

/-- The last thread does not end because the proposal was pushed, its node does not have the
block or its fragment is here. -/
def Persistent : FinalizeEvent → FinalizeState → Prop
  | .poll dstIndex, s => ∀ d ∈ unfinished blockId s, LastWorker n d dstIndex →
      n.isFinalizationDownloadOnly = true ∨ arrivedByPush n blockId proposerIndex s.node = false
  | .respond dstIndex response _, s => ∀ d ∈ unfinished blockId s, LastWorker n d dstIndex →
      ∀ r ∈ response, ∀ next ∈ (d.workers dstIndex).requested,
        (r.1.getUint64 "status").toOption ≠ some 4 ∧ d.fragmentList.fragments.contains next = false
  | _, _ => True

instance (e : FinalizeEvent) (s : FinalizeState) :
    Decidable (Persistent n blockId proposerIndex e s) :=
  match e with
  | .poll _ => inferInstanceAs (Decidable (∀ d ∈ _, _ → _))
  | .respond _ _ _ => inferInstanceAs (Decidable (∀ d ∈ _, _ → ∀ r ∈ _, ∀ next ∈ _, _))
  | .node _ | .enter | .lookUp | .check | .join | .add | .commit => inferInstanceAs (Decidable True)

/-- A thread is still running, or none is needed any more. -/
def Running (node : NodeState) (d : Download) : Prop :=
  (∃ i ∈ List.range' 1 n.cm.nodeCount, d.workers i ≠ .stopped) ∨
    d.fragmentList.isComplete = true ∨ blockId ≤ node.lastCommittedBlockID

/-- What holds of the call: if it ends, the block is committed. -/
def Ahead (node : NodeState) : Finalizer → Prop
  | .downloading d => d.fragmentList.Counted ∧ Running n blockId node d
  | .ended (.ok _) => blockId ≤ node.lastCommittedBlockID
  | .committed => blockId ≤ node.lastCommittedBlockID ∨
      ∃ block, node.holder = .pushing block ∧ blockId ≤ block.blockID
  | _ => True

end Condition

section Progress
variable {n : Node} {blockId next random : ℕ} {proposerIndex dstIndex : SchainIndex}
  {thresholdSig : Bytes} {s s' : FinalizeState} {node node' : NodeState} {d : Download}

/-! ### Threads -/

theorem mem_unfinished (hat : s.finalizer = .downloading d)
    (hincomplete : d.fragmentList.isComplete = false)
    (hlast : s.node.lastCommittedBlockID < blockId) : d ∈ unfinished blockId s := by
  unfold unfinished
  rw [hat]
  dsimp only
  rw [hincomplete, decide_eq_true hlast]
  rfl

/-- A thread that does not end keeps the download running; one that ends does if another
runs, or if the download does not need it. -/
theorem Running.update {d' : Download} {w : Worker} (h : Running n blockId node d)
    (hworkers : d'.workers = Function.update d.workers dstIndex w)
    (hcomplete : d.fragmentList.isComplete = true → d'.fragmentList.isComplete = true)
    (hend : w = .stopped → LastWorker n d dstIndex →
      d'.fragmentList.isComplete = true ∨ blockId ≤ node.lastCommittedBlockID) :
    Running n blockId node d' := by
  rcases h with ⟨i, hi, hrunning⟩ | hdone | hlast
  · by_cases hw : w = .stopped
    · by_cases hother : LastWorker n d dstIndex
      · exact .inr (hend hw hother)
      · unfold LastWorker at hother
        push Not at hother
        obtain ⟨j, hj, hne, hworker⟩ := hother
        refine .inl ⟨j, hj, ?_⟩
        rw [hworkers, Function.update_of_ne hne]
        exact hworker
    · refine .inl ⟨i, hi, ?_⟩
      rw [hworkers]
      rcases eq_or_ne i dstIndex with rfl | hne
      · rw [Function.update_self]
        exact hw
      · rw [Function.update_of_ne hne]
        exact hrunning
  · exact .inr (.inl (hcomplete hdone))
  · exact .inr (.inr hlast)

theorem ahead_toDownload : Ahead n blockId node (toDownload n blockId) := by
  unfold toDownload
  cases hstart : startDownload n blockId with
  | error e => trivial
  | ok d =>
    obtain ⟨hcount, hreturn⟩ := checkState_bind_eq_ok.mp hstart
    cases hreturn
    have htwo : 1 < n.cm.nodeCount := of_decide_eq_true hcount
    obtain ⟨i, hi, hother⟩ : ∃ i : ℕ, i ∈ List.range' 1 n.cm.nodeCount ∧ i ≠ n.me := by
      rcases eq_or_ne n.me 1 with hone | hone
      · exact ⟨2, List.mem_range'_1.mpr (by omega), by rw [hone]; decide⟩
      · exact ⟨1, List.mem_range'_1.mpr (by omega), hone.symm⟩
    refine ⟨counted_empty _ _, .inl ⟨i, hi, ?_⟩⟩
    dsimp only
    rw [if_pos ⟨hi, hother⟩]
    nofun

theorem pollStep_eq_stopped (h : pollStep n blockId proposerIndex s d next = .stopped) :
    d.fragmentList.isComplete = true ∨ blockId ≤ s.node.lastCommittedBlockID ∨
      (n.isFinalizationDownloadOnly = false ∧
        arrivedByPush n blockId proposerIndex s.node = true) := by
  unfold pollStep at h
  split_ifs at h with hcomplete hleave
  · exact .inl hcomplete
  · obtain ⟨honly, hreason⟩ := (Bool.and_eq_true _ _).mp hleave
    rcases (Bool.or_eq_true _ _).mp hreason with hlast | hpush
    · exact .inr (.inl (of_decide_eq_true hlast))
    · exact .inr (.inr ⟨by simpa using honly, hpush⟩)

/-! ### Steps of the call -/

/-- What a response leaves, and what the thread does then. -/
def readingAfter : EStateM.Result String Reading ℕ → Reading
  | .ok _ t => t
  | .error _ t => t

def workerAfter (next : ℕ) : EStateM.Result String Reading ℕ → Worker
  | .ok 0 _ => .stopped
  | .ok next _ => .loop next
  | .error _ t => if t.download.fragmentList.isComplete then .stopped else .loop next

/-- The response to a request that the last thread still needs ends it only when the list is
complete. -/
theorem Running.respond {c : SessionCache} {r : EStateM.Result String Reading ℕ} {d' : Download}
    (h : Running n blockId node d) (hcounted : d.fragmentList.Counted)
    (hadds : AddsFragment next random ⟨c, d⟩ r)
    (hd' : d' = {(readingAfter r).download with
      workers := Function.update (readingAfter r).download.workers dstIndex (workerAfter next r)})
    (hneeded : ∀ next' t, r = .ok next' t → d.fragmentList.isComplete = false →
      node.lastCommittedBlockID < blockId → LastWorker n d dstIndex →
        d.fragmentList.fragments.contains next = false) :
    d'.fragmentList.Counted ∧ Running n blockId node d' := by
  subst hd'
  cases r with
  | error e t' =>
    obtain ⟨hworkers, hlist⟩ := hadds
    dsimp only [readingAfter]
    refine ⟨hlist ▸ hcounted, h.update (by rw [hworkers]) (fun hdone => hlist ▸ hdone) ?_⟩
    intro hstopped _
    dsimp only [workerAfter] at hstopped
    split_ifs at hstopped with hdone
    exact .inl hdone
  | ok next' t' =>
    obtain ⟨hworkers, f, hf, hadd⟩ := hadds
    dsimp only [readingAfter]
    refine ⟨hcounted.addFragment hadd, h.update (by rw [hworkers])
      (fun hdone => isComplete_of_addFragment hcounted hdone hadd) fun hstopped hother => ?_⟩
    have hzero : next' = 0 := by
      cases next' with
      | zero => rfl
      | succ k => cases hstopped
    by_cases hlast : blockId ≤ node.lastCommittedBlockID
    · exact .inr hlast
    · refine .inl ?_
      cases hdone : d.fragmentList.isComplete with
      | true => exact isComplete_of_addFragment hcounted hdone hadd
      | false =>
        cases (addFragment_eq_ok.mp hadd).2 with
        | here hhere =>
          rw [hf, hneeded next' t' rfl hdone (Nat.lt_of_not_le hlast) hother] at hhere
          cases hhere
        | last _ _ hcomplete _ hlist => exact hlist ▸ hcomplete
        | next _ _ _ _ hpos hnext => exact absurd (hnext.symm.trans hzero) hpos.ne'

theorem respondStep_finalizer {js : Json} {data : Option Bytes}
    {r : EStateM.Result String Reading ℕ}
    (hrun : (downloadFragment n blockId s.node.lastCommittedBlockTimeStamp.s next js data
      random).run ⟨s.node.sessionPublicKeys, d⟩ = r) :
    (respondStep n blockId s d dstIndex next (some (js, data)) random).finalizer =
      .downloading {(readingAfter r).download with
        workers :=
          Function.update (readingAfter r).download.workers dstIndex (workerAfter next r)} := by
  unfold respondStep finalState result?
  dsimp only
  rw [hrun]
  cases r with
  | error e t => rfl
  | ok next' t => cases next' <;> rfl

/-- A response ends the last thread only if the download is done, or the condition is not
met. -/
theorem ahead_respondStep {response : Option (Json × Option Bytes)}
    (hat : s.finalizer = .downloading d) (hworker : d.workers dstIndex = .requesting next)
    (h : Ahead n blockId s.node (.downloading d))
    (hpersistent : Persistent n blockId proposerIndex (.respond dstIndex response random) s) :
    Ahead n blockId (respondStep n blockId s d dstIndex next response random).node
      (respondStep n blockId s d dstIndex next response random).finalizer := by
  obtain ⟨hcounted, hrunning⟩ := h
  have hneeded : ∀ r ∈ response, d.fragmentList.isComplete = false →
      s.node.lastCommittedBlockID < blockId → LastWorker n d dstIndex →
        (r.1.getUint64 "status").toOption ≠ some 4 ∧
          d.fragmentList.fragments.contains next = false := by
    intro r hr hincomplete hlast hother
    refine hpersistent d (mem_unfinished hat hincomplete hlast) hother r hr next ?_
    rw [hworker]
    rfl
  cases response with
  | none =>
    have hadds : AddsFragment next random ⟨s.node.sessionPublicKeys, d⟩
        (.error "ConnectionRefusedException" ⟨s.node.sessionPublicKeys, d⟩) := ⟨rfl, rfl⟩
    exact hrunning.respond hcounted hadds rfl nofun
  | some response =>
    obtain ⟨js, data⟩ := response
    rcases @downloadFragment_run n blockId ⟨s.node.sessionPublicKeys, d⟩
      s.node.lastCommittedBlockTimeStamp.s next js data random
      with ⟨hstatus, hrun⟩ | hadds
    · rw [respondStep_finalizer hrun]
      refine ⟨hcounted, hrunning.update rfl id fun _ hother => ?_⟩
      by_contra hneither
      obtain ⟨hincomplete, hlast⟩ := not_or.mp hneither
      refine (hneeded (js, data) rfl (Bool.eq_false_iff.mpr hincomplete) (Nat.lt_of_not_le hlast)
        hother).1 ?_
      rw [hstatus]
      rfl
    · rw [respondStep_finalizer rfl]
      exact hrunning.respond hcounted hadds rfl fun _ _ _ hincomplete hlast hother =>
        (hneeded (js, data) rfl hincomplete hlast hother).2

theorem ahead_joinStep (h : Ahead n blockId node (.downloading d))
    (hstopped : ∀ i ∈ List.range' 1 n.cm.nodeCount, d.workers i = .stopped) :
    Ahead n blockId node (joinStep n proposerIndex d) := by
  unfold joinStep
  cases hassemble : assembleProposal n proposerIndex d with
  | error e => trivial
  | ok assembled =>
    cases assembled with
    | none =>
      rcases h.2 with ⟨i, hi, hrunning⟩ | hdone | hlast
      · exact absurd (hstopped i hi) hrunning
      · exact absurd (hdone.symm.trans (assembleProposal_eq_ok hassemble).1.symm) nofun
      · exact hlast
    | some proposal =>
      dsimp only
      cases getDaSig n d proposal.timeStamp <;> trivial

theorem blockID_of_blockCommitArrived {daSig : Option DASignature} {block : CommittedBlock}
    (hnode : Orderly node)
    (h : blockCommitArrived n blockId proposerIndex thresholdSig node daSig = .ok (some block)) :
    block.blockID = blockId := by
  obtain ⟨proposal, hproposal, hmake, -⟩ := made_of_blockCommitArrived h
  have h₁ := after_check hmake
  obtain ⟨text, h₂⟩ := after_bind h₁
  have hfields := BlockProposal.of_make_eq_ok (CommittedBlock.of_make_eq_ok h₂).1
  have hblock : block.blockID = proposal.blockID := by
    rw [hfields]
    rfl
  rw [hblock]
  unfold committedProposal at hproposal
  split_ifs at hproposal
  · cases hget : getBlockProposal n node blockId proposerIndex with
    | none =>
      rw [hget] at hproposal
      cases hproposal
    | some q =>
      rw [hget] at hproposal
      cases hproposal
      exact hnode.blockID_of_getBlockProposal hget
  · exact congrArg ProposalFields.blockID (BlockProposal.of_make_eq_ok hproposal)

theorem ahead_commitStep (daSig : Option DASignature) (hnode : Orderly s.node) :
    Ahead n blockId (commitStep n blockId proposerIndex thresholdSig s daSig).node
        (commitStep n blockId proposerIndex thresholdSig s daSig).finalizer ∧
      Orderly (commitStep n blockId proposerIndex thresholdSig s daSig).node := by
  unfold commitStep
  cases harrived : blockCommitArrived n blockId proposerIndex thresholdSig s.node daSig with
  | error e => exact ⟨trivial, hnode⟩
  | ok arrived =>
    cases arrived with
    | none => exact ⟨committed_of_blockCommitArrived harrived, hnode⟩
    | some block =>
      dsimp only
      cases hprocess : processCommittedBlock block s.node with
      | error e => exact ⟨trivial, hnode⟩
      | ok t =>
        obtain ⟨hnext, hreturn⟩ := checkState_bind_eq_ok.mp hprocess
        cases hreturn
        refine ⟨.inr ⟨block, rfl, (blockID_of_blockCommitArrived hnode harrived).ge⟩, ?_,
          hnode.filed⟩
        intro block' hblock'
        cases hblock'
        exact (eq_of_beq hnext).symm

/-- Whatever the node does, it does not go back. -/
theorem Ahead.effect {e : NodeEvent} (hnode : Orderly node) (he : Effect n node e node')
    (halive : e ≠ .restart) {f : Finalizer} (h : Ahead n blockId node f) :
    Ahead n blockId node' f := by
  have hmono := lastCommittedBlockID_le_of_effect hnode he
  cases f with
  | entered | lookingUp | found | downloaded | committing => trivial
  | downloading d => exact ⟨h.1, h.2.imp_right fun hdone => hdone.imp_right hmono.trans'⟩
  | ended outcome =>
    cases outcome with
    | error e => trivial
    | ok u => exact hmono.trans' h
  | committed =>
    rcases h with hlast | ⟨block, hholder, hblock⟩
    · exact .inl (hmono.trans' hlast)
    · rcases holder_of_effect_pushing he halive hholder with hsame | hlast
      · exact .inr ⟨block, hsame, hblock⟩
      · exact .inl (hlast ▸ hblock)

structure Covered (n : Node) (blockId : ℕ) (s : FinalizeState) : Prop where
  node : Orderly s.node
  ahead : Ahead n blockId s.node s.finalizer

theorem Covered.step {e : FinalizeEvent} (hs : Covered n blockId s)
    (hc : Persistent n blockId proposerIndex e s)
    (h : finalizeStep n blockId proposerIndex thresholdSig e s = some s') :
    Covered n blockId s' := by
  obtain ⟨hnode, hahead⟩ := hs
  cases effect_of_finalizeStep h with
  | node halive hstep =>
    have he := effect_of_nodeStep hstep
    exact ⟨hnode.effect he, hahead.effect hnode he halive⟩
  | enter =>
    refine ⟨hnode, ?_⟩
    dsimp only [enterStep]
    split_ifs with hold
    · exact hold
    · trivial
    · trivial
  | lookUp =>
    refine ⟨hnode, ?_⟩
    dsimp only [lookUpStep]
    split
    · trivial
    · exact ahead_toDownload
  | check =>
    unfold checkStep
    dsimp only
    split_ifs
    · exact ⟨hnode, ahead_toDownload⟩
    · split
      · exact ⟨⟨hnode.pushing, hnode.filed⟩, trivial⟩
      · exact ⟨⟨hnode.pushing, hnode.filed⟩, ahead_toDownload⟩
    · split
      · exact ⟨⟨hnode.pushing, hnode.filed⟩, trivial⟩
      · exact ⟨⟨hnode.pushing, hnode.filed⟩, trivial⟩
  | @poll _ d _ hat =>
    rw [hat] at hahead
    refine ⟨hnode, hahead.1, hahead.2.update rfl id fun hstopped hother => ?_⟩
    rcases pollStep_eq_stopped hstopped with hdone | hlast | ⟨honly, hpush⟩
    · exact .inl hdone
    · exact .inr hlast
    · by_contra hneither
      obtain ⟨hincomplete, hlast⟩ := not_or.mp hneither
      have hmem := mem_unfinished hat (Bool.eq_false_iff.mpr hincomplete) (Nat.lt_of_not_le hlast)
      rcases hc d hmem hother with honly' | hpush'
      · rw [honly] at honly'
        cases honly'
      · rw [hpush] at hpush'
        cases hpush'
  | respond hat hworker =>
    rw [hat] at hahead
    exact ⟨⟨hnode.pushing, hnode.filed⟩, ahead_respondStep hat hworker hahead hc⟩
  | join hat hstopped =>
    rw [hat] at hahead
    exact ⟨hnode, ahead_joinStep hahead hstopped⟩
  | @add proposal daSig =>
    unfold addStep
    rcases addBlockProposal_run (n := n) (s := s.node) proposal with hrun | ⟨e, hrun⟩
    · rw [hrun]
      exact ⟨⟨hnode.pushing, filed_stored hnode.filed⟩, trivial⟩
    · rw [hrun]
      exact ⟨hnode, trivial⟩
  | @commit daSig =>
    obtain ⟨hahead', hnode'⟩ := ahead_commitStep daSig hnode
    exact ⟨hnode', hahead'⟩

/-- In every interleaving in which the last thread of the download does not give up, the
block is committed when the call has returned. -/
theorem committed_of_returned {start : NodeState} (hstart : (running n).Reachable start)
    {events : List FinalizeEvent}
    (hrun : (finalizing n blockId proposerIndex thresholdSig start).run events = some s)
    (hpersistent : (finalizing n blockId proposerIndex thresholdSig start).Keeps
      (Persistent n blockId proposerIndex)
      (finalizing n blockId proposerIndex thresholdSig start).initial events)
    (hreturned : Returned s) : blockId ≤ s.node.lastCommittedBlockID := by
  have hcovered : Covered n blockId s := by
    refine Machine.run_invariant_of_keeps hrun hpersistent ⟨orderly_of_reachable hstart, trivial⟩ ?_
    exact fun e s s' hs hc hstep => hs.step hc hstep
  have hahead := hcovered.ahead
  unfold Returned at hreturned
  split at hreturned
  next outcome hat =>
    rw [hat] at hahead
    exact hahead
  next hat =>
    rw [hat] at hahead
    rcases hahead with hlast | ⟨block, hholder, -⟩
    · exact hlast
    · rw [hreturned] at hholder
      cases hholder
  next => cases hreturned

end Progress

/-- Node 1 downloads the proposal, commits it and is done. -/
theorem committed_untilDownloaded :
    ∃ s, (finalizing nodeOne 1 2 [1] .genesis).run
        (untilDownloaded ++ [.commit, .node .pushed, .node .abort]) = some s ∧
      Returned s ∧ 1 ≤ s.node.lastCommittedBlockID := by
  obtain ⟨s, hrun, hreturned⟩ :
      ∃ s, (finalizing nodeOne 1 2 [1] .genesis).run
          (untilDownloaded ++ [.commit, .node .pushed, .node .abort]) = some s ∧ Returned s :=
    Machine.exists_run (by decide +kernel)
  exact ⟨s, hrun, hreturned, committed_of_returned ⟨[], rfl⟩ hrun (by decide +kernel) hreturned⟩

/-- The DA proof for the proposal with time stamp 1, as its proposer sends it. -/
def submitDAProof : Json :=
  .object [("schainID", .number 1), ("blockID", .number 1), ("proposerIndex", .number 2),
    ("proposerNodeID", .number 12), ("thrSig", .string daProof),
    ("hash", .string (toHex (offeredHash 1)))]

/-- Node 1 makes its own proposal and starts to download node 2's. -/
def untilDownloading : List FinalizeEvent :=
  [.node (.build ⟨[], 0, ⟨MODERN_TIME + 1, 0⟩, [1]⟩), .node .store, .node .save, .node .sign,
    .enter, .lookUp]

def pushed : List FinalizeEvent :=
  [.node (.request (offer 1).addFields (MODERN_TIME + 1)), .node (.finish (offer 1) []),
    .node (.daProof submitDAProof), .poll 2, .poll 3, .poll 4, .join]

/-- The other nodes answer that they do not have the block. -/
def refused : List FinalizeEvent :=
  [.poll 2, .poll 3, .poll 4] ++
    ([2, 3, 4] : List ℕ).map (fun i =>
      .respond i (some (.object [("status", .number 4)], none)) 0) ++ [.join]

/-- The call returns and the block is not committed: all threads have ended because
everything was pushed, or because nobody has the block. -/
theorem not_committed_of_returned :
    (running nodeOne).Reachable .genesis ∧
      (∃ s, (finalizing nodeOne 1 2 [1] .genesis).run (untilDownloading ++ pushed) = some s ∧
        Returned s ∧ s.node.lastCommittedBlockID = 0) ∧
      ∃ s, (finalizing nodeOne 1 2 [1] .genesis).run (untilDownloading ++ refused) = some s ∧
        Returned s ∧ s.node.lastCommittedBlockID = 0 :=
  ⟨⟨[], rfl⟩, Machine.exists_run (by decide +kernel), Machine.exists_run (by decide +kernel)⟩

end SkaleConsensus.Finalize
