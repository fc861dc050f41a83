import SkaleConsensus.Block.RoundTrip
import SkaleConsensus.Db.SetStore
import SkaleConsensus.Proposal.Store

/-! The cache of proposals and the copies of the node's own in LevelDB.

`addBlockProposal` puts a proposal into the slot of its proposer, and then the node's own into
LevelDB. The cache has a test that is to keep the first proposal of a block, but it repeats the
test for an earlier block: a second proposal takes the slot. LevelDB keeps the first. So the two
stay the same, and the first proposal is the one that is returned, as long as no other proposal is
added for a block (`coherent_iff_repeats`).

Before a block is pushed the cache is cleaned. What remains are the later proposals of the block's
proposer: the winning proposal itself goes, and so do the later ones of the others
(`cleanupFrame_iff`). -/
namespace SkaleConsensus.Proposal
open Library Block Crypto Db ProposalCaches CacheLevelDB

/-- The members of `BlockProposalDB` that change. -/
structure BlockProposalDB where
  proposalCaches : ProposalCaches
  levelDB : CacheLevelDB

/-- `_proposerIndex` is the index of a node. -/
def Indexed (n : Node) (index : SchainIndex) : Prop := 0 < index ∧ index ≤ n.cm.nodeCount

instance decidableIndexed (n : Node) (index : SchainIndex) : Decidable (Indexed n index) :=
  inferInstanceAs (Decidable (_ ∧ _))

namespace BlockProposalDB

section Code
variable (n : Node) (dump : Json → Bytes) (version : Bytes)

/-- Whether the database is full is an argument, as of every call that writes. -/
def serializeProposalAndSaveItToLevelDB (full : Bool) (proposal : BlockProposal) :
    EStateM String BlockProposalDB Unit := fun s =>
  match proposal.serializeProposal n.cm.blake3 dump with
  | .error _ => .error "serializeProposalAndSaveItToLevelDB" s
  | .ok serialized =>
    match (writeByteArrayToSet version n.cm.nodeCount full serialized
        proposal.blockID proposal.proposerIndex).run s.levelDB with
    | .error _ db => .error "serializeProposalAndSaveItToLevelDB" {s with levelDB := db}
    | .ok _ db => .ok () {s with levelDB := db}

def addBlockProposal (full : Bool) (proposal : BlockProposal) :
    EStateM String BlockProposalDB Unit := do
  checkArgument (!proposal.signature.isEmpty) "_proposal->getSignature() != \"\""
  checkState (decide (proposal.proposerIndex ≤ n.cm.nodeCount))
    "( uint64_t ) proposerIndex <= getSchain()->getNodeCount()"
  checkState (decide (0 < proposal.proposerIndex)) "proposerIndex > 0"
  modify fun s => {s with proposalCaches := s.proposalCaches.add proposal}
  if proposal.proposerIndex = n.me then
    serializeProposalAndSaveItToLevelDB n dump version full proposal

def getMyProposalFromLevelDB (s : BlockProposalDB) (blockID : ℕ) (proposerIndex : SchainIndex) :
    Except String (Option Bytes) :=
  let value := s.levelDB.readString (createKey version [blockID, proposerIndex])
  let checked : Except String (Option Bytes) := do
    serializedSanityCheck value
    return some value
  if value.isEmpty then pure none else checked.mapError fun _ => "getMyProposalFromLevelDB"

def getBlockProposal (s : BlockProposalDB) (blockID : ℕ) (proposerIndex : SchainIndex) :
    Except String (Option BlockProposal) :=
  -- `proposalCaches->at( ( uint64_t ) _proposerIndex - 1 )`
  if Indexed n proposerIndex then
    match (s.proposalCaches.slot proposerIndex).filter (·.blockID == blockID) with
    | some cachedProposal => pure (some cachedProposal)
    | none =>
      if n.me ≠ proposerIndex then pure none
      else do
        match ← s.getMyProposalFromLevelDB version blockID proposerIndex with
        | none => return none
        | some serializedProposal =>
          let proposal ← n.deserializeProposal serializedProposal false
          checkState (!proposal.signature.isEmpty) "!proposal->getSignature().empty()"
          return some proposal
  else throw "vector::_M_range_check"

end Code

end BlockProposalDB

/-! ### Sequences of calls -/

inductive CacheCall where
  | add (full : Bool) (proposal : BlockProposal)
  | cleanup (block : CommittedBlock)

/-- The database, and what is to be compared with it. -/
structure Watched where
  db : BlockProposalDB
  /-- Not in the code: the cache before the last call, if that added a proposal. -/
  previous : Option ProposalCaches
  /-- Not in the code: the blocks and proposers that a proposal was added for. -/
  added : List ProtocolKey
  /-- Not in the code: for each proposer the first proposal that was added for a block, until a
  cleanup or a proposal with a larger block id. -/
  first : SchainIndex → Option BlockProposal

/-- A proposal is the first if there was none for its block and its proposer; one that finds the
cache at a larger block id comes too late. -/
def Watched.firstAfter (s : Watched) (p : BlockProposal) : Option BlockProposal :=
  if ⟨p.blockID, p.proposerIndex⟩ ∉ s.added ∧
      ∀ q ∈ s.db.proposalCaches.slot p.proposerIndex, q.blockID ≤ p.blockID then some p
  else (s.first p.proposerIndex).filter fun q => p.blockID ≤ q.blockID

section Calls
variable (n : Node) (dump : Json → Bytes) (version : Bytes)

/-- Calls on a database that was opened on these directories, whether they return or throw. -/
def proposalStore (directories : Directories) : Machine Watched CacheCall where
  initial := ⟨⟨.empty, .make directories⟩, none, [], fun _ => none⟩
  step
    | .add full p, s => some
      { db := finalState (BlockProposalDB.addBlockProposal n dump version full p) s.db
        previous := some s.db.proposalCaches
        added := if Indexed n p.proposerIndex then ⟨p.blockID, p.proposerIndex⟩ :: s.added
          else s.added
        first := if Indexed n p.proposerIndex then
            Function.update s.first p.proposerIndex (s.firstAfter p)
          else s.first }
    | .cleanup block, s => some
      { s with
        db := {s.db with proposalCaches := s.db.proposalCaches.cleanup block}
        previous := none
        first := fun _ => none }

/-- What the callers rely on. -/
structure Coherent (s : Watched) : Prop where
  /-- No block id in the cache has decreased. -/
  rising : ∀ c ∈ s.previous, ∀ index, ∀ p ∈ c.slot index,
    ∃ p' ∈ s.db.proposalCaches.slot index, p.blockID ≤ p'.blockID
  first : ∀ index, ∀ p ∈ s.first index,
    s.db.getBlockProposal n version p.blockID index = .ok (some p)
  /-- The bytes in LevelDB are those of the proposal in the cache. -/
  own : ∀ p ∈ s.db.proposalCaches.slot n.me,
    ∀ bytes ∈ s.db.levelDB.find (createKey version [p.blockID, n.me]),
      p.serializeProposal n.cm.blake3 dump = .ok bytes

/-- LevelDB has no other bytes for the block when the proposal is to be written. -/
def Agrees (full : Bool) (p : BlockProposal) (db : CacheLevelDB) : Prop :=
  match p.serializeProposal n.cm.blake3 dump with
  | .error _ => db.find (createKey version [p.blockID, p.proposerIndex]) = none
  | .ok serialized =>
    ∀ bytes ∈ (db.rotateDBsIfNeeded full).find (createKey version [p.blockID, p.proposerIndex]),
      bytes = serialized

/-- A proposal for a block that has one is the same again, in the cache and in LevelDB. -/
def Repeats : CacheCall → Watched → Prop
  | .add full p, s => Indexed n p.proposerIndex →
      (∀ q ∈ s.first p.proposerIndex, q.blockID = p.blockID → q = p) ∧
      (p.proposerIndex = n.me →
        (∀ q ∈ s.db.proposalCaches.slot p.proposerIndex, q.blockID ≤ p.blockID) →
        Agrees n dump version full p s.db.levelDB)
  | .cleanup _, _ => True

end Calls

/-! ### One call -/

namespace ProposalCaches
variable {c : ProposalCaches} {proposal : BlockProposal}

/-- A slot at a later block is kept; any other is taken. -/
theorem slot_add (c : ProposalCaches) (proposal : BlockProposal) :
    (c.add proposal).slot proposal.proposerIndex =
      if ∀ q ∈ c.slot proposal.proposerIndex, q.blockID ≤ proposal.blockID then some proposal
      else c.slot proposal.proposerIndex := by
  rcases slot_add_self c proposal with htaken | ⟨previous, hslot, hlater, hkept⟩
  · split_ifs with hnone
    · exact htaken
    · push Not at hnone
      obtain ⟨q, hq, hlater⟩ := hnone
      unfold add
      rw [Option.mem_def.mp hq]
      dsimp only
      rw [if_pos hlater]
      exact hq
  · rw [hkept, hslot, if_neg]
    exact fun hall => absurd (hall previous rfl) (Nat.not_le.mpr hlater)

theorem rising_add (c : ProposalCaches) (proposal : BlockProposal) {index : SchainIndex}
    {p : BlockProposal} (h : p ∈ c.slot index) :
    ∃ p' ∈ (c.add proposal).slot index, p.blockID ≤ p'.blockID := by
  rcases eq_or_ne index proposal.proposerIndex with rfl | hne
  · rw [slot_add]
    split_ifs with hall
    · exact ⟨proposal, rfl, hall p h⟩
    · exact ⟨p, h, le_rfl⟩
  · rw [slot_add_of_ne hne]
    exact ⟨p, h, le_rfl⟩

end ProposalCaches

section Effects
variable {n : Node} {dump : Json → Bytes} {version : Bytes} {s s' : Watched} {db : BlockProposalDB}
  {full : Bool} {p : BlockProposal}

open BlockProposalDB

/-- A proposal with the index of a node goes to the cache, and one's own is then saved. -/
theorem finalState_addBlockProposal :
    finalState (BlockProposalDB.addBlockProposal n dump version full p) db =
      if Indexed n p.proposerIndex then
        if p.proposerIndex = n.me then
          finalState (serializeProposalAndSaveItToLevelDB n dump version full p)
            {db with proposalCaches := db.proposalCaches.add p}
        else {db with proposalCaches := db.proposalCaches.add p}
      else db := by
  have hsigned : (!p.signature.isEmpty) = true := by
    rw [List.isEmpty_eq_false_iff.mpr p.signed]
    rfl
  unfold BlockProposalDB.addBlockProposal
  rw [hsigned, finalState_bind_of_ok (checkArgument_run_eq_ok (u := ()).mpr ⟨rfl, rfl⟩)]
  by_cases hle : p.proposerIndex ≤ n.cm.nodeCount
  · rw [finalState_bind_of_ok (checkState_run_of_true (decide_eq_true hle) _ db)]
    by_cases hpos : 0 < p.proposerIndex
    · have hindex : Indexed n p.proposerIndex := ⟨hpos, hle⟩
      rw [finalState_bind_of_ok (checkState_run_of_true (decide_eq_true hpos) _ db),
        finalState_bind_of_ok (x := modify _) (a := ()) rfl, if_pos hindex]
      split_ifs <;> rfl
    · have hindex : ¬ Indexed n p.proposerIndex := fun h => hpos h.1
      rw [finalState_bind_of_error (checkState_run_of_false (decide_eq_false hpos) _ db),
        if_neg hindex]
  · have hindex : ¬ Indexed n p.proposerIndex := fun h => hle h.2
    rw [finalState_bind_of_error (checkState_run_of_false (decide_eq_false hle) _ db),
      if_neg hindex]

theorem proposalCaches_serialize (db : BlockProposalDB) :
    (finalState (serializeProposalAndSaveItToLevelDB n dump version full p) db).proposalCaches =
      db.proposalCaches := by
  unfold finalState serializeProposalAndSaveItToLevelDB EStateM.run
  cases p.serializeProposal n.cm.blake3 dump with
  | error e => rfl
  | ok serialized =>
    dsimp only
    cases writeByteArrayToSet version n.cm.nodeCount full serialized p.blockID
      p.proposerIndex db.levelDB <;> rfl

theorem proposalCaches_addBlockProposal (h : Indexed n p.proposerIndex) :
    (finalState (BlockProposalDB.addBlockProposal n dump version full p) db).proposalCaches =
      db.proposalCaches.add p := by
  rw [finalState_addBlockProposal, if_pos h]
  split_ifs
  · exact proposalCaches_serialize _
  · rfl

/-- What is in LevelDB after a proposal was saved: its bytes, where there were none. -/
structure SavedFrom (n : Node) (dump : Json → Bytes) (version : Bytes) (full : Bool)
    (p : BlockProposal) (db db' : CacheLevelDB) : Prop where
  opened : db'.Opened
  others : ∀ b, b ≠ p.blockID → ∀ bytes ∈ db'.find (createKey version [b, p.proposerIndex]),
    bytes ∈ db.find (createKey version [b, p.proposerIndex])
  agrees : (∀ bytes ∈ db'.find (createKey version [p.blockID, p.proposerIndex]),
    p.serializeProposal n.cm.blake3 dump = .ok bytes) ↔ Agrees n dump version full p db

theorem finalState_serialize_of_error {db : BlockProposalDB} {e : String}
    (h : p.serializeProposal n.cm.blake3 dump = .error e) :
    finalState (serializeProposalAndSaveItToLevelDB n dump version full p) db = db := by
  unfold finalState serializeProposalAndSaveItToLevelDB EStateM.run
  rw [h]

theorem levelDB_serialize_of_ok {db : BlockProposalDB} {serialized : Bytes}
    (h : p.serializeProposal n.cm.blake3 dump = .ok serialized) :
    (finalState (serializeProposalAndSaveItToLevelDB n dump version full p) db).levelDB =
      finalState (writeByteArrayToSet version n.cm.nodeCount full serialized
        p.blockID p.proposerIndex) db.levelDB := by
  unfold finalState serializeProposalAndSaveItToLevelDB EStateM.run
  rw [h]
  dsimp only
  cases writeByteArrayToSet version n.cm.nodeCount full serialized p.blockID
    p.proposerIndex db.levelDB <;> rfl

theorem savedFrom_serialize (db : BlockProposalDB) (hs : db.levelDB.Opened)
    (hindex : Indexed n p.proposerIndex) :
    SavedFrom n dump version full p db.levelDB
      (finalState (serializeProposalAndSaveItToLevelDB n dump version full p) db).levelDB := by
  have hrotated := opened_rotateDBsIfNeeded hs full
  cases hserialize : p.serializeProposal n.cm.blake3 dump with
  | error e =>
    rw [finalState_serialize_of_error hserialize]
    refine ⟨hs, fun _ _ _ => id, ?_⟩
    rw [Agrees, hserialize, Option.eq_none_iff_forall_not_mem]
    exact forall₂_congr fun bytes _ => iff_of_false nofun id
  | ok serialized =>
    rw [levelDB_serialize_of_ok hserialize]
    have hagrees : ∀ bytes, (Except.ok serialized : Except String Bytes) = .ok bytes ↔
        bytes = serialized := fun bytes => ⟨fun h => (Except.ok.inj h).symm, fun h => h ▸ rfl⟩
    rcases finalState_writeByteArrayToSet hindex full serialized p.blockID db.levelDB with
      hleft | ⟨hnone, count, age, hage, hwritten⟩
    · rw [hleft]
      refine ⟨hrotated, fun b _ bytes hfind => find_of_find_rotate hs hfind, ?_⟩
      rw [Agrees, hserialize]
      exact forall₂_congr fun bytes _ => hagrees bytes
    · rw [hwritten]
      refine ⟨opened_update hrotated _ _, fun b hb bytes hfind => ?_, ?_⟩
      · rw [find_setBatch count hrotated hage hnone, if_neg hb] at hfind
        exact find_of_find_rotate hs hfind
      · rw [find_setBatch count hrotated hage hnone, if_pos rfl, Agrees, hserialize]
        dsimp only
        rw [hnone]
        refine iff_of_true ?_ nofun
        rintro bytes ⟨⟩
        rfl

theorem savedFrom_addBlockProposal (hs : db.levelDB.Opened) (hindex : Indexed n p.proposerIndex)
    (hown : p.proposerIndex = n.me) :
    SavedFrom n dump version full p db.levelDB
      (finalState (BlockProposalDB.addBlockProposal n dump version full p) db).levelDB := by
  rw [finalState_addBlockProposal, if_pos hindex, if_pos hown]
  exact savedFrom_serialize {db with proposalCaches := db.proposalCaches.add p} hs hindex

theorem levelDB_addBlockProposal (h : p.proposerIndex ≠ n.me) :
    (finalState (BlockProposalDB.addBlockProposal n dump version full p) db).levelDB =
      db.levelDB := by
  rw [finalState_addBlockProposal, if_neg h]
  split_ifs <;> rfl

/-- A call returns the proposal in the cache if that is for the block. -/
theorem getBlockProposal_of_cached {index : SchainIndex} (hindex : Indexed n index)
    (h : db.proposalCaches.slot index = some p) :
    db.getBlockProposal n version p.blockID index = .ok (some p) := by
  unfold BlockProposalDB.getBlockProposal
  rw [if_pos hindex, h, Option.filter_some, if_pos (beq_self_eq_true p.blockID)]
  rfl

/-! ### The node's own view -/

/-- What a node's state says of its proposals is what the database has. -/
structure Represents (n : Node) (dump : Json → Bytes) (version : Bytes) (db : BlockProposalDB)
    (node : NodeState) : Prop where
  caches : db.proposalCaches = node.proposalCaches
  opened : db.levelDB.Opened
  stored : ∀ b, (node.proposalDB b).map (·.serializeProposal n.cm.blake3 dump) =
    (db.levelDB.find (createKey version [b, n.me])).map .ok

section View
variable {node : NodeState}

theorem finalState_node_addBlockProposal (h : Indexed n p.proposerIndex) :
    finalState (Proposal.addBlockProposal n p) node =
      if p.proposerIndex = n.me then {node with
        proposalCaches := node.proposalCaches.add p
        proposalDB := Function.update node.proposalDB p.blockID
          ((node.proposalDB p.blockID).or (some p))}
      else {node with proposalCaches := node.proposalCaches.add p} := by
  unfold Proposal.addBlockProposal
  rw [finalState_bind_of_ok (checkState_run_of_true (decide_eq_true h.2) _ node),
    finalState_bind_of_ok (checkState_run_of_true (decide_eq_true h.1) _ node),
    finalState_bind_of_ok (x := modify _) (a := ()) rfl]
  split_ifs <;> rfl

/-- As long as nothing is rotated out, a call is what the node's model says it is. -/
theorem Represents.addBlockProposal (h : Represents n dump version db node)
    (hindex : Indexed n p.proposerIndex) {serialized : Bytes}
    (hserialize : p.serializeProposal n.cm.blake3 dump = .ok serialized)
    (hcounter : (db.levelDB.findCounter version p.blockID).isSome = true) :
    Represents n dump version
      (finalState (BlockProposalDB.addBlockProposal n dump version false p) db)
      (finalState (Proposal.addBlockProposal n p) node) := by
  have hcaches := @proposalCaches_addBlockProposal n dump version db false p hindex
  rw [finalState_node_addBlockProposal hindex]
  by_cases hown : p.proposerIndex = n.me
  · rw [if_pos hown]
    refine ⟨hcaches.trans (congrArg (·.add p) h.caches),
      (savedFrom_addBlockProposal h.opened hindex hown).opened, fun b => ?_⟩
    obtain ⟨⟨count, age⟩, hfound⟩ := Option.isSome_iff_exists.mp hcounter
    rw [finalState_addBlockProposal, if_pos hindex, if_pos hown,
      levelDB_serialize_of_ok hserialize, finalState_writeByteArrayToSet_eq hindex]
    dsimp only
    rw [show db.levelDB.rotateDBsIfNeeded false = db.levelDB from rfl,
      keyExists_eq_find, hfound, hown]
    have hstored := h.stored p.blockID
    cases hfind : db.levelDB.find (createKey version [p.blockID, n.me]) with
    | some bytes =>
      -- There is a proposal for the block: both keep it.
      rw [hfind] at hstored
      obtain ⟨first, hfirst, -⟩ := Option.map_eq_some_iff.mp hstored
      rw [hfirst, Option.some_or, ← hfirst, Function.update_eq_self]
      exact h.stored b
    | none =>
      rw [hfind, Option.map_none, Option.map_eq_none_iff] at hstored
      rw [hstored, Option.none_or, if_neg (by simp),
        find_setBatch _ h.opened (findCounter_lt hfound) hfind]
      rcases eq_or_ne b p.blockID with rfl | hne
      · rw [Function.update_self, Option.map_some, hserialize, if_pos rfl, Option.map_some]
      · rw [Function.update_of_ne hne, h.stored b, if_neg hne]
  · rw [if_neg hown]
    refine ⟨hcaches.trans (congrArg (·.add p) h.caches), ?_, ?_⟩ <;>
      rw [levelDB_addBlockProposal hown]
    · exact h.opened
    · exact h.stored

/-- What is read is the proposal that the node's model has, if its bytes are read as it. -/
theorem Represents.getBlockProposal (h : Represents n dump version db node) {b : ℕ}
    {index : SchainIndex} (hindex : Indexed n index)
    (hread : ∀ p bytes, node.proposalDB b = some p →
      p.serializeProposal n.cm.blake3 dump = .ok bytes → bytes ≠ [] ∧
      serializedSanityCheck bytes = (.ok () : Except String Unit) ∧
      n.deserializeProposal bytes false = .ok p) :
    db.getBlockProposal n version b index = .ok (Proposal.getBlockProposal n node b index) := by
  unfold BlockProposalDB.getBlockProposal Proposal.getBlockProposal
  rw [if_pos hindex, h.caches]
  cases (node.proposalCaches.slot index).filter (·.blockID == b) with
  | some cached => rfl
  | none =>
    dsimp only
    rw [Option.none_or]
    by_cases hown : n.me = index
    · rw [if_neg (not_not.mpr hown), if_pos hown]
      have hstored := h.stored b
      unfold getMyProposalFromLevelDB
      rw [← hown, readString_eq_find]
      cases hfind : db.levelDB.find (createKey version [b, n.me]) with
      | none =>
        rw [hfind, Option.map_none, Option.map_eq_none_iff] at hstored
        rw [hstored]
        rfl
      | some bytes =>
        rw [hfind] at hstored
        obtain ⟨p, hp, hserialize⟩ := Option.map_eq_some_iff.mp hstored
        obtain ⟨hne, hsane, hdeserialize⟩ := hread p bytes hp hserialize
        rw [hp, Option.getD_some]
        dsimp only
        rw [List.isEmpty_eq_false_iff.mpr hne, hsane]
        refine bind_eq_ok.mpr ⟨some bytes, rfl, bind_eq_ok.mpr ⟨p, hdeserialize, ?_⟩⟩
        refine checkState_bind_eq_ok.mpr ⟨?_, rfl⟩
        rw [List.isEmpty_eq_false_iff.mpr p.signed]
        rfl
    · rw [if_pos hown, if_neg hown]
      rfl

end View

/-! ### Whole runs -/

/-- The first proposals have been added, and the cache is at their blocks. -/
structure Noted (n : Node) (s : Watched) : Prop where
  opened : s.db.levelDB.Opened
  indexed : ∀ index, ∀ p ∈ s.first index, Indexed n index
  added : ∀ index, ∀ p ∈ s.first index, ⟨p.blockID, index⟩ ∈ s.added
  cached : ∀ index, ∀ p ∈ s.first index,
    ∃ q ∈ s.db.proposalCaches.slot index, q.blockID = p.blockID

theorem Noted.returned_iff {index : SchainIndex} {q : BlockProposal} (hs : Noted n s)
    (hq : q ∈ s.first index) :
    s.db.getBlockProposal n version q.blockID index = .ok (some q) ↔
      s.db.proposalCaches.slot index = some q := by
  obtain ⟨q', hslot, hblock⟩ := hs.cached index q hq
  rw [← hblock, getBlockProposal_of_cached (hs.indexed index q hq) hslot, hslot]
  exact ⟨fun heq => Except.ok.inj heq, fun heq => congrArg _ heq⟩

theorem Noted.firstAfter {q : BlockProposal} (hs : Noted n s) (hq : q ∈ s.firstAfter p) :
    ⟨q.blockID, p.proposerIndex⟩ ∈ (⟨p.blockID, p.proposerIndex⟩ : ProtocolKey) :: s.added ∧
      ∃ q' ∈ (s.db.proposalCaches.add p).slot p.proposerIndex, q'.blockID = q.blockID := by
  rw [slot_add]
  unfold Watched.firstAfter at hq
  split_ifs at hq with hfirst
  · cases hq
    rw [if_pos hfirst.2]
    exact ⟨List.mem_cons_self, p, rfl, rfl⟩
  · obtain ⟨hbefore, hle⟩ := Option.filter_eq_some_iff.mp hq
    obtain ⟨q', hslot, hblock⟩ := hs.cached _ q hbefore
    refine ⟨List.mem_cons_of_mem _ (hs.added _ q hbefore), ?_⟩
    split_ifs with hall
    · have hge := hall q' hslot
      rw [hblock] at hge
      exact ⟨p, rfl, Nat.le_antisymm (of_decide_eq_true hle) hge⟩
    · exact ⟨q', hslot, hblock⟩

theorem first_iff_same (hs : Noted n s)
    (hfirst : ∀ q ∈ s.first p.proposerIndex, s.db.proposalCaches.slot p.proposerIndex = some q) :
    (∀ q ∈ s.firstAfter p, (s.db.proposalCaches.add p).slot p.proposerIndex = some q) ↔
      ∀ q ∈ s.first p.proposerIndex, q.blockID = p.blockID → q = p := by
  rw [slot_add]
  unfold Watched.firstAfter
  by_cases hnew : ⟨p.blockID, p.proposerIndex⟩ ∉ s.added ∧
      ∀ q ∈ s.db.proposalCaches.slot p.proposerIndex, q.blockID ≤ p.blockID
  · rw [if_pos hnew, if_pos hnew.2]
    refine iff_of_true (fun q hq => hq) fun q hq hblock => ?_
    have hadded := hs.added _ q hq
    rw [hblock] at hadded
    exact absurd hadded hnew.1
  · rw [if_neg hnew]
    constructor
    · intro hkept q hq hblock
      have hslot := hkept q (Option.filter_eq_some_iff.mpr ⟨hq, decide_eq_true hblock.ge⟩)
      rw [if_pos] at hslot
      · exact (Option.some.inj hslot).symm
      · intro q' hq'
        rw [Option.mem_def, hfirst q hq] at hq'
        cases hq'
        exact hblock.le
    · intro hsame q hq
      obtain ⟨hq, hle⟩ := Option.filter_eq_some_iff.mp hq
      have hslot := hfirst q hq
      split_ifs with hall
      · -- The slot is taken, and by the same proposal.
        rw [hsame q hq (Nat.le_antisymm (hall q hslot) (of_decide_eq_true hle))]
      · exact hslot

theorem Noted.add (hs : Noted n s) (hindex : Indexed n p.proposerIndex)
    (previous : Option ProposalCaches) :
    Noted n
      { db := finalState (BlockProposalDB.addBlockProposal n dump version full p) s.db
        previous
        added := ⟨p.blockID, p.proposerIndex⟩ :: s.added
        first := Function.update s.first p.proposerIndex (s.firstAfter p) } := by
  refine ⟨?_, fun index q hq => ?_, fun index q hq => ?_, fun index q hq => ?_⟩
  · by_cases hown : p.proposerIndex = n.me
    · exact (savedFrom_addBlockProposal hs.opened hindex hown).opened
    · dsimp only
      rw [levelDB_addBlockProposal hown]
      exact hs.opened
  all_goals
    dsimp only at hq ⊢
    rcases eq_or_ne index p.proposerIndex with rfl | hne
  · exact hindex
  · rw [Function.update_of_ne hne] at hq
    exact hs.indexed index q hq
  · rw [Function.update_self] at hq
    exact (hs.firstAfter hq).1
  · rw [Function.update_of_ne hne] at hq
    exact List.mem_cons_of_mem _ (hs.added index q hq)
  · rw [Function.update_self] at hq
    rw [proposalCaches_addBlockProposal hindex]
    exact (hs.firstAfter hq).2
  · rw [Function.update_of_ne hne] at hq
    rw [proposalCaches_addBlockProposal hindex, slot_add_of_ne hne]
    exact hs.cached index q hq

/-- The bytes of one's own proposal are those in LevelDB after it was added, unless LevelDB had
others; a proposal for an earlier block changes nothing. -/
theorem own_iff_agrees (hs : s.db.levelDB.Opened) (hindex : Indexed n p.proposerIndex)
    (hown : ∀ q ∈ s.db.proposalCaches.slot n.me,
      ∀ bytes ∈ s.db.levelDB.find (createKey version [q.blockID, n.me]),
        q.serializeProposal n.cm.blake3 dump = .ok bytes) :
    (∀ q ∈ (s.db.proposalCaches.add p).slot n.me,
      ∀ bytes ∈ (finalState (BlockProposalDB.addBlockProposal n dump version full p)
        s.db).levelDB.find (createKey version [q.blockID, n.me]),
        q.serializeProposal n.cm.blake3 dump = .ok bytes) ↔
      (p.proposerIndex = n.me →
        (∀ q ∈ s.db.proposalCaches.slot p.proposerIndex, q.blockID ≤ p.blockID) →
        Agrees n dump version full p s.db.levelDB) := by
  by_cases hme : p.proposerIndex = n.me
  · have hsaved := @savedFrom_addBlockProposal n dump version s.db full p hs hindex hme
    rw [← hme] at hown ⊢
    rw [slot_add]
    by_cases hall : ∀ q ∈ s.db.proposalCaches.slot p.proposerIndex, q.blockID ≤ p.blockID
    · rw [if_pos hall]
      refine ⟨fun h _ _ => hsaved.agrees.mp (h p rfl), fun h q hq => ?_⟩
      cases hq
      exact hsaved.agrees.mpr (h rfl hall)
    · rw [if_neg hall]
      refine iff_of_true (fun q hq bytes hbytes => ?_) fun _ h => absurd h hall
      refine hown q hq bytes (hsaved.others q.blockID (fun hblock => hall ?_) bytes hbytes)
      intro q' hq'
      rw [Option.mem_def, Option.mem_def.mp hq] at hq'
      cases hq'
      exact hblock.le
  · rw [slot_add_of_ne (Ne.symm hme), levelDB_addBlockProposal hme]
    exact iff_of_true hown fun h => absurd h hme

theorem coherent_add_iff {directories : Directories} (hs : Noted n s)
    (hcoherent : Coherent n dump version s)
    (h : (proposalStore n dump version directories).step (.add full p) s = some s') :
    Noted n s' ∧ (Coherent n dump version s' ↔ Repeats n dump version (.add full p) s) := by
  cases h
  by_cases hindex : Indexed n p.proposerIndex
  · rw [if_pos hindex, if_pos hindex]
    have hnoted := @Noted.add n dump version s full p hs hindex (some s.db.proposalCaches)
    refine ⟨hnoted, ?_⟩
    have hslots := @proposalCaches_addBlockProposal n dump version s.db full p hindex
    have hfirst := first_iff_same (p := p) hs fun q hq =>
      (hs.returned_iff hq).mp (hcoherent.first _ q hq)
    have hown := @own_iff_agrees n dump version s full p hs.opened hindex hcoherent.own
    constructor
    · intro hafter _
      refine ⟨hfirst.mp fun q hq => ?_, hown.mp ?_⟩
      · have hmem : q ∈ Function.update s.first p.proposerIndex (s.firstAfter p)
            p.proposerIndex := by
          rw [Function.update_self]
          exact hq
        rw [← hslots]
        exact (hnoted.returned_iff hmem).mp (hafter.first _ q hmem)
      · have hafterOwn := hafter.own
        dsimp only at hafterOwn
        rw [hslots] at hafterOwn
        exact hafterOwn
    · intro hrepeats
      obtain ⟨hsame, hagrees⟩ := hrepeats hindex
      refine ⟨?_, fun index q hq => (hnoted.returned_iff hq).mpr ?_, ?_⟩
      · rintro c ⟨⟩ index q hq
        dsimp only
        rw [hslots]
        exact rising_add _ p hq
      · dsimp only at hq ⊢
        rw [hslots]
        rcases eq_or_ne index p.proposerIndex with rfl | hne
        · rw [Function.update_self] at hq
          exact hfirst.mpr hsame q hq
        · rw [Function.update_of_ne hne] at hq
          rw [slot_add_of_ne hne]
          exact (hs.returned_iff hq).mp (hcoherent.first index q hq)
      · dsimp only
        rw [hslots]
        exact hown.mpr hagrees
  · rw [finalState_addBlockProposal, if_neg hindex, if_neg hindex, if_neg hindex]
    refine ⟨⟨hs.opened, hs.indexed, hs.added, hs.cached⟩,
      iff_of_true ⟨?_, hcoherent.first, hcoherent.own⟩ fun h => absurd h hindex⟩
    rintro c ⟨⟩ index q hq
    exact ⟨q, hq, le_rfl⟩

theorem coherent_cleanup {directories : Directories} {block : CommittedBlock} (hs : Noted n s)
    (hcoherent : Coherent n dump version s)
    (h : (proposalStore n dump version directories).step (.cleanup block) s = some s') :
    Noted n s' ∧ Coherent n dump version s' := by
  cases h
  refine ⟨⟨hs.opened, nofun, nofun, nofun⟩, nofun, nofun, fun q hq => ?_⟩
  exact hcoherent.own q (slot_of_cleanup hq)

end Effects

/-- Over any sequence of calls: the block ids in the cache do not decrease between cleanups, the
first proposal for a block and a proposer is returned until a cleanup or a proposal with a larger
block id, and one's own proposals are the same in the cache and in LevelDB, exactly if every
proposal that is added for a block that has one is the same again. -/
theorem coherent_iff_repeats (n : Node) (dump : Json → Bytes) (version : Bytes)
    (directories : Directories) (calls : List CacheCall) :
    (proposalStore n dump version directories).Always (Coherent n dump version)
        (proposalStore n dump version directories).initial calls ↔
      (proposalStore n dump version directories).Keeps (Repeats n dump version)
        (proposalStore n dump version directories).initial calls := by
  obtain ⟨s, hrun⟩ := Machine.exists_runFrom_of_total
    (M := proposalStore n dump version directories)
    (fun call s => by cases call <;> exact ⟨_, rfl⟩)
    (proposalStore n dump version directories).initial calls
  refine Machine.always_iff_keeps (I := Noted n) (fun call s s' hs hcoherent hstep => ?_)
    ⟨opened_make directories, nofun, nofun, nofun⟩ ⟨nofun, nofun, nofun⟩ hrun
  cases call with
  | add full p => exact coherent_add_iff hs hcoherent hstep
  | cleanup block =>
    obtain ⟨hnoted, hafter⟩ := coherent_cleanup hs hcoherent hstep
    exact ⟨hnoted, iff_of_true hafter trivial⟩

/-! ### Two proposals for a block -/

def nodeTwo : Node := {Node.ofFour with toBlockReader := smallReader, me := 2}

/-- The proposal `small` with another signature. -/
def againSigned : BlockProposal :=
  {small with
    signature := textBytes "again"
    signed := by decide}

/-- Node 2 adds its proposal and then the other one: the cache has the second, LevelDB the first. -/
theorem second_replaces_first :
    ∃ s, (proposalStore nodeTwo printHeader (textBytes "1.0") ∅).run
        [.add false small, .add false againSigned] = some s ∧
      s.first 2 = some small ∧ s.db.proposalCaches.slot 2 = some againSigned ∧
      s.db.levelDB.find (createKey (textBytes "1.0") [1, 2]) =
        (small.serializeProposal nodeTwo.cm.blake3 printHeader).toOption ∧
      ¬ Coherent nodeTwo printHeader (textBytes "1.0") s := by
  obtain ⟨s, hrun, hfirst, hslot, hfind⟩ :
      ∃ s, (proposalStore nodeTwo printHeader (textBytes "1.0") ∅).run
          [.add false small, .add false againSigned] = some s ∧
        s.first 2 = some small ∧ s.db.proposalCaches.slot 2 = some againSigned ∧
        s.db.levelDB.find (createKey (textBytes "1.0") [1, 2]) =
          (small.serializeProposal nodeTwo.cm.blake3 printHeader).toOption :=
    Machine.exists_run (by decide +kernel)
  refine ⟨s, hrun, hfirst, hslot, hfind, fun hcoherent => ?_⟩
  have hreturned := hcoherent.first 2 small hfirst
  rw [show small.blockID = againSigned.blockID from rfl,
    getBlockProposal_of_cached (by decide) hslot] at hreturned
  exact absurd (Option.some.inj (Except.ok.inj hreturned)) (by decide +kernel)

/-! ### The cleanup before a block is pushed -/

/-- What the cleanup is to keep and what it is to remove. -/
structure CleanupFrame (c : ProposalCaches) (block : CommittedBlock) : Prop where
  winner : ∀ p ∈ c.slot block.proposerIndex, p.blockID = block.blockID →
    p ∈ (c.cleanup block).slot block.proposerIndex
  losers : ∀ index, ∀ p ∈ (c.cleanup block).slot index, p.blockID ≤ block.blockID →
    index = block.proposerIndex ∧ p.blockID = block.blockID
  later : ∀ index, ∀ p ∈ c.slot index, block.blockID < p.blockID →
    p ∈ (c.cleanup block).slot index

theorem ProposalCaches.mem_slot_cleanup {c : ProposalCaches} {block : CommittedBlock}
    {index : SchainIndex} {p : BlockProposal} :
    p ∈ (c.cleanup block).slot index ↔
      p ∈ c.slot index ∧ index = block.proposerIndex ∧ block.blockID < p.blockID := by
  constructor
  · intro h
    obtain ⟨hslot, hkept⟩ := Option.filter_eq_some_iff.mp h
    have hindex := c.index_eq index p hslot
    simp only [Bool.not_eq_true', Bool.or_eq_false_iff, bne_eq_false_iff_eq,
      decide_eq_false_iff_not, Nat.not_le] at hkept
    exact ⟨hslot, hindex ▸ hkept.1, hkept.2⟩
  · rintro ⟨hslot, hindex, hlater⟩
    have hproposer := (c.index_eq index p hslot).trans hindex
    refine Option.filter_eq_some_iff.mpr ⟨hslot, ?_⟩
    simp [hproposer, hlater]

/-- The cleanup is as it should be exactly if the block's proposer has no proposal for the block in
the cache, and the others none for a later block. -/
theorem cleanupFrame_iff (c : ProposalCaches) (block : CommittedBlock) :
    CleanupFrame c block ↔ ∀ index, ∀ p ∈ c.slot index,
      if index = block.proposerIndex then p.blockID ≠ block.blockID
      else p.blockID ≤ block.blockID := by
  constructor
  · intro h index p hp
    split_ifs with hindex
    · intro hblock
      subst hindex
      have hkept := ProposalCaches.mem_slot_cleanup.mp (h.winner p hp hblock)
      exact absurd hblock hkept.2.2.ne'
    · by_contra hlater
      have hkept := h.later index p hp (Nat.lt_of_not_le hlater)
      exact hindex (ProposalCaches.mem_slot_cleanup.mp hkept).2.1
  · intro h
    refine ⟨fun p hp hblock => ?_, fun index p hp hle => ?_, fun index p hp hlater => ?_⟩
    · have hne := h block.proposerIndex p hp
      rw [if_pos rfl] at hne
      exact absurd hblock hne
    · exact absurd hle (Nat.not_le.mpr (ProposalCaches.mem_slot_cleanup.mp hp).2.2)
    · have hcondition := h index p hp
      split_ifs at hcondition with hindex
      · exact ProposalCaches.mem_slot_cleanup.mpr ⟨hp, hindex, hlater⟩
      · exact absurd hlater (Nat.not_lt.mpr hcondition)

/-- The proposal that was committed is removed from the cache. -/
theorem winner_removed :
    small ∈ (ProposalCaches.empty.add small).slot 2 ∧
      ¬ CleanupFrame (ProposalCaches.empty.add small) smallBlock := by
  refine ⟨rfl, fun h => ?_⟩
  have hkept := ProposalCaches.mem_slot_cleanup.mp (h.winner small rfl rfl)
  exact absurd hkept.2.2 (by decide)

end SkaleConsensus.Proposal
