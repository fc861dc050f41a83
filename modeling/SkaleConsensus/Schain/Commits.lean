import SkaleConsensus.Finalize.Commit
import SkaleConsensus.Schain.Bootstrap
import SkaleConsensus.Schain.CommitLock
import SkaleConsensus.Schain.Delivery

/-! One commit, seen from several sides.

`blockCommitArrived` and `processCommittedBlock` have a model with the call that finalizes a
block, one with the lock that is taken, and one with the external face that the block is passed
to; `bootstrap` has one with the databases it reads and one with the external face. Where they
speak of the same things they agree: what the first makes of a decided proposal the ledger saves
(`Ledger.blockCommitArrived_eq`) and the thread under the lock commits (`run_commitDecided`), and a
round of the replay is a call of `createBlock` (`Replays.replayBlock`). -/
namespace SkaleConsensus.Schain
open Library Block Crypto Proposal Db

/-! ### A decided block -/

section Decided
variable {n : Node} {blockId : ℕ} {proposerIndex : SchainIndex} {thresholdSig : Bytes}
  {node : NodeState} {daSig : Option Finalize.DASignature} {block : CommittedBlock} {w : World}

theorem Ledger.blockCommitArrived_eq {s : Ledger}
    (htip : s.tip = ⟨node.lastCommittedBlockID, node.lastCommittedBlockTimeStamp⟩)
    (h : Finalize.blockCommitArrived n block.blockID proposerIndex thresholdSig node daSig =
      .ok (some block)) :
    s.blockCommitArrived block =
      match Finalize.processCommittedBlock block node with
      | .ok _ => s.saveBlock block
      | .error _ => s := by
  obtain ⟨-, -, -, hnew, hnext, hstamp⟩ := Finalize.made_of_blockCommitArrived h
  unfold Ledger.blockCommitArrived Ledger.processCommittedBlock Finalize.processCommittedBlock
  rw [htip, if_neg hnew, if_pos ⟨by simpa using hnext, hstamp⟩]
  cases hlast : node.lastCommittedBlockID + 1 == block.blockID with
  | true => exact if_pos (eq_of_beq hlast)
  | false => exact if_neg (ne_of_beq_false hlast)

/-- The calls of a thread come to what they come to on the node. -/
structure World.Serves (w : World) (n : Node) (node : NodeState) (thresholdSig : Bytes)
    (daSig : Option Finalize.DASignature) : Prop where
  getBlockProposal : ∀ step b i,
    w.getBlockProposal step b i = .ok (Proposal.getBlockProposal n node b i)
  createDefault : ∀ step b p,
    BlockProposal.createDefaultEmpty n.schainID node.lastCommittedBlockTimeStamp b = .ok p →
      w.createDefaultEmptyBlockProposal step b = .ok (some p)
  makeFromProposal : ∀ step p block, Finalize.makeFromProposal p thresholdSig daSig = .ok block →
    w.makeFromProposal step p = .ok block
  processCommittedBlock : ∀ step block t, Finalize.processCommittedBlock block node = .ok t →
    w.processCommittedBlock step block = .ok ()
  proposeNextBlock : ∀ step, w.proposeNextBlock step false = .ok ()
  setschedparam : ∀ step, w.setschedparam step = true

theorem run_call {α : Type} {result : ℕ → Except Thrown α} {th : Thread} {a : α}
    (h : result th.step = .ok a) :
    (call result).run th = .ok a {th with step := th.step + 1} := by
  unfold call EStateM.run
  dsimp only
  rw [h]

theorem World.Serves.run_committedProposal {proposal : BlockProposal}
    (hw : w.Serves n node thresholdSig daSig) (th : Thread)
    (h : Finalize.committedProposal n blockId proposerIndex node = .ok proposal) :
    (committedProposal w blockId proposerIndex).run th =
      .ok (some proposal) {th with step := th.step + 1} := by
  unfold Finalize.committedProposal at h
  unfold committedProposal
  split_ifs at h ⊢
  · apply run_call
    rw [hw.getBlockProposal]
    cases hget : Proposal.getBlockProposal n node blockId proposerIndex with
    | none =>
      rw [hget] at h
      cases h
    | some found =>
      rw [hget] at h
      exact congrArg (Except.ok ∘ some) (Except.ok.inj h)
  · exact run_call (hw.createDefault _ _ _ h)

theorem World.Serves.run_unbumpPriority (hw : w.Serves n node thresholdSig daSig) (th : Thread) :
    (unbumpPriority w).run th = .ok () {th with step := th.step + 1} := by
  refine run_bind_eq_ok.mpr ⟨_, _, run_call rfl, ?_⟩
  rw [hw.setschedparam]
  rfl

/-- A thread that holds the lock commits the block. -/
theorem run_commitDecided (hw : w.Serves n node thresholdSig daSig) {th : Thread}
    (hid : th.lastCommittedBlockID = node.lastCommittedBlockID)
    (hstamp : th.lastCommittedBlockTimeStamp = node.lastCommittedBlockTimeStamp)
    (h : Finalize.blockCommitArrived n blockId proposerIndex thresholdSig node daSig =
      .ok (some block)) {t : NodeState} (ht : Finalize.processCommittedBlock block node = .ok t) :
    (commitDecided w blockId proposerIndex).run th = .ok () {
      step := th.step + 5
      acquired := th.acquired
      unlocked := th.unlocked + 1
      lastCommittedBlockID := block.blockID
      lastCommittedBlockTimeStamp := block.getTimeStamp } := by
  obtain ⟨proposal, hproposal, hmade, hnew, hnext, hlater⟩ := Finalize.made_of_blockCommitArrived h
  have hcommit : (commitProposal w (some proposal)).run {th with step := th.step + 1} = .ok () {
      th with
      step := th.step + 4
      lastCommittedBlockID := block.blockID
      lastCommittedBlockTimeStamp := block.getTimeStamp } := by
    refine run_bind_eq_ok.mpr ⟨_, _, run_call (hw.makeFromProposal _ _ _ hmade), ?_⟩
    rw [run_get_bind]
    dsimp only
    rw [hstamp, hlater]
    refine run_bind_eq_ok.mpr ⟨(), _, rfl, run_bind_eq_ok.mpr ⟨(), _, run_bind_eq_ok.mpr ⟨(), _,
      run_call (hw.processCommittedBlock _ _ t ht), rfl⟩, run_call (hw.proposeNextBlock _)⟩⟩
  unfold commitDecided
  rw [run_get_bind, hid, if_neg hnew, hnext]
  refine run_bind_eq_ok.mpr ⟨(), _, rfl, run_bind_eq_ok.mpr ⟨_, _,
    hw.run_committedProposal th hproposal, run_bind_eq_ok.mpr ⟨(), _, hcommit, ?_⟩⟩⟩
  exact run_bind_eq_ok.mpr ⟨(), _, hw.run_unbumpPriority _, rfl⟩

end Decided

/-! ### A saved block -/

/-- A block whose header the libraries read as they print it, and which fits the buffer. -/
structure SavedBlock (r : BlockReader) (dump : Json → Bytes) where
  block : CommittedBlock
  printed : Printed r block.toBlockProposal (block.headerText r.cm.blake3 dump)
    (block.createBlockHeader r.cm.blake3).addFields
  short : (block.headerText r.cm.blake3 dump).length + 8 ≤ MAX_BUFFER_SIZE

section Saved
variable {r : BlockReader} {dump : Json → Bytes}
  (hdigest : Hasher r.cm.blake3)

include hdigest in
/-- The bytes that a block is written as are read as the block. -/
theorem SavedBlock.exists_bytes (x : SavedBlock r dump) : ∃ bytes : Bytes,
    x.block.serialize r.cm.blake3 dump = .ok bytes ∧ bytes[8]? = some 123 ∧
      bytes.getLast? = some 62 ∧ ∃ header, r.parseBlock bytes = .ok (header, x.block) := by
  obtain ⟨hbrace, hlast⟩ := x.printed.ends x.block.transactionList
  exact ⟨_, serialize_eq x.printed x.short, hbrace, hlast, _,
    parseBlock_eq hdigest x.printed x.short⟩

variable (dump)

open Classical in
/-- `CommittedBlock::serialize`, and `deserialize` without the signatures, of such blocks. -/
noncomputable def blockCodec : BlockCodec (SavedBlock r dump) where
  getBlockID x := x.block.blockID
  getSignature x := x.block.signature
  serialize x := (x.exists_bytes hdigest).choose
  deserialize bytes := do
    let (_, block) ← r.parseBlock bytes
    if h : ∃ x : SavedBlock r dump, x.block = block then return h.choose
    else throw "Could not parse committed block header"
  head_serialize x := (x.exists_bytes hdigest).choose_spec.2.1
  last_serialize x := (x.exists_bytes hdigest).choose_spec.2.2.1
  deserialize_serialize x := by
    obtain ⟨header, hparse⟩ := (x.exists_bytes hdigest).choose_spec.2.2.2
    have hsaved : ∃ y : SavedBlock r dump, y.block = x.block := ⟨x, rfl⟩
    refine bind_eq_ok.mpr ⟨(header, x.block), hparse, ?_⟩
    dsimp only
    rw [dif_pos hsaved]
    cases x
    cases hy : hsaved.choose
    have hblock := hsaved.choose_spec
    rw [hy] at hblock
    cases hblock
    rfl

variable {dump}

theorem serialize_blockCodec (x : SavedBlock r dump) :
    x.block.serialize r.cm.blake3 dump = .ok ((blockCodec dump hdigest).serialize x) :=
  (x.exists_bytes hdigest).choose_spec.1

/-- A block is read if LevelDB has what `CommittedBlock::serialize` wrote. -/
theorem stored_blockCodec {db : BlockDB} {x : SavedBlock r dump} {bytes : Bytes}
    (hcache : db.blockCache.get? x.block.blockID = none)
    (hbytes : x.block.serialize r.cm.blake3 dump = .ok bytes)
    (h : db.db.readString (BlockDB.createBlockKey x.block.blockID) = bytes) :
    stored (blockCodec dump hdigest) db x.block.blockID = some x := by
  have hrun := run_getBlock (blockCodec dump hdigest) db x.block.blockID
  rw [serialize_blockCodec hdigest] at hbytes
  cases hbytes
  rw [getBlock_of_readString hcache h] at hrun
  unfold stored
  cases houtcome : outcome (blockCodec dump hdigest) db x.block.blockID with
  | ok block =>
    rw [houtcome] at hrun
    exact (EStateM.Result.ok.inj hrun).1.symm
  | error e =>
    rw [houtcome] at hrun
    cases hrun

variable (dump)

/-- What `bootstrap` calls, for such blocks. -/
noncomputable def savedLibrary {E : Type}
    (pushBlockToExtFace : SavedBlock r dump → E → Except String E) :
    ReplayLibrary (SavedBlock r dump) E where
  codec := blockCodec dump hdigest
  getTimeStampS x := x.block.timeStamp
  getTimeStampMs x := x.block.timeStampMs
  pushBlockToExtFace

/-- The ledger is where the loop of `bootstrap` is. -/
structure Replays {E : Type} (s : Replay (SavedBlock r dump) E) (l : Ledger) : Prop where
  phase : l.phase = .bootstrapping
  tip : l.tip = ⟨s.lastCommittedBlockID,
    ⟨s.lastCommittedBlockTimeStamp, s.lastCommittedBlockTimeStampMs⟩⟩
  blocks : ∀ id, l.blockDB id = (stored (blockCodec dump hdigest) s.blockDB id).map (·.block)

variable {dump}

/-- A round of the loop is a call of `createBlock` with the block at hand, if there is one. -/
theorem Replays.replayBlock {E : Type} {push : SavedBlock r dump → E → Except String E}
    {s : Replay (SavedBlock r dump) E} {l : Ledger} (h : Replays dump hdigest s l)
    (hlast : l.tip.id < l.lastSaved)
    (hpush : ∀ x extFace, ∃ extFace', push x extFace = .ok extFace') :
    Replays dump hdigest (finalState (Schain.replayBlock (savedLibrary dump hdigest push)) s)
      (l.atHand.elim l l.createBlockReturns) := by
  have hnext : l.tip.id + 1 = s.lastCommittedBlockID + 1 := by rw [h.tip]
  have hhand : l.atHand =
      (stored (blockCodec dump hdigest) s.blockDB (s.lastCommittedBlockID + 1)).map (·.block) := by
    unfold Ledger.atHand
    rw [h.phase]
    dsimp only
    rw [if_pos hlast, h.blocks, hnext]
  rw [hhand]
  cases hstored : stored (blockCodec dump hdigest) s.blockDB (s.lastCommittedBlockID + 1) with
  | none =>
    rw [finalState_replayBlock_of_not_stored hstored]
    exact ⟨h.phase, h.tip, fun id => by rw [stored_looked]; exact h.blocks id⟩
  | some x =>
    obtain ⟨extFace, hstate⟩ :=
      @finalState_replayBlock_of_stored _ _ (savedLibrary dump hdigest push) s hpush x hstored
    rw [hstate, Option.map_some, Option.elim_some]
    unfold Ledger.createBlockReturns
    rw [if_pos h.phase]
    refine ⟨h.phase, ?_, fun id => by rw [stored_looked]; exact h.blocks id⟩
    dsimp only
    rw [hnext]
    rfl

end Saved

end SkaleConsensus.Schain
