import SkaleConsensus.Db.CacheLevelDB
import SkaleConsensus.Library.Collect
import SkaleConsensus.Network.RoundTrip

/-! The log of the messages that a node sent.

A message is stored under the number of its block and a counter, which every process starts at
zero, and the messages of a block are found by a text that their keys begin with. That text ends
with the last digit of the number, so that it is also the beginning of the keys of other blocks;
and after a restart a key may be taken, and then the message is not stored.

`getMessages_exact_iff` says what a node that keeps its keys apart gets back. -/
namespace SkaleConsensus.Db
open Library Network CacheLevelDB

/-- `getFormatVersion`. -/
def msgVersion : Bytes := textBytes "1.0"

/-- The database, and the `static` counter of the process. -/
structure MsgDB where
  db : CacheLevelDB
  msgCounter : ℕ

/-- A message that can be written and read back, with its text. -/
structure SentMessage (n : Receiver) (write : JsonObject → Bytes) where
  message : NetworkMessage
  text : Bytes
  serialize : message.serializeToString write = .ok text
  parse : parseMessage n text = .ok message

def SentMessage.ofWellBuilt {n : Receiver} {write : JsonObject → Bytes} {m : NetworkMessage}
    (h : WellBuilt n m) (hjson : ReadsBack n write m.members) (hzero : ∀ text ∈ m.child, 0 ∉ text) :
    SentMessage n write where
  message := m
  text := cString (write m.members)
  serialize := checkState_bind_eq_ok.mpr ⟨not_isEmpty h.constructible.ecdsaSig,
    checkState_bind_eq_ok.mpr ⟨decide_eq_true hjson.1, rfl⟩⟩
  parse := (parse_serialize_iff h hjson).mpr hzero

namespace MsgDB
variable (n : Receiver) (write : JsonObject → Bytes)

/-- Whether the message was stored, and the database after that. -/
def saveMsg (full : Bool) (m : NetworkMessage) (s : MsgDB) : Except String (Bool × MsgDB) := do
  let serialized ← m.serializeToString write
  checkState (!serialized.isEmpty) "!serialized.empty()"
  let currentCounter := s.msgCounter
  let key := createKey msgVersion [m.blockID, currentCounter]
  checkState (!key.isEmpty) "!key.empty()"
  let previous := s.db.readString key
  if previous.isEmpty then
    return (true, ⟨s.db.writeString full key serialized false, (currentCounter + 1) % 2 ^ 64⟩)
  else return (previous == serialized, ⟨s.db, (currentCounter + 1) % 2 ^ 64⟩)

def getMessages (s : MsgDB) (blockID : ℕ) : Except String (List NetworkMessage) :=
  (((s.db.readPrefixRange (createKey msgVersion [blockID])).entries.insertionSort
    fun a b => a.1 ≤ b.1).mapM fun e => parseMessage n e.2).mapError fun _ => "getMessages"

end MsgDB

/-! ### Runs -/

/-- The database, and what was passed to `saveMsg`, each message with the counter it got. -/
structure MsgLog (n : Receiver) (write : JsonObject → Bytes) extends MsgDB where
  saved : List (ℕ × SentMessage n write)

inductive MsgEvent (n : Receiver) (write : JsonObject → Bytes) where
  | saveMsg (full : Bool) (m : SentMessage n write)
  /-- Another database of the process takes a number. -/
  | elsewhere
  | restart

namespace MsgLog
variable {n : Receiver} {write : JsonObject → Bytes}

def messages (s : MsgLog n write) : List NetworkMessage := s.saved.map fun e => e.2.message

/-- `getMessages` returns the messages of a block that were saved, each as often as it was. -/
def Exact (s : MsgLog n write) (blockID : ℕ) : Prop :=
  ∃ messages, s.toMsgDB.getMessages n blockID = .ok messages ∧
    messages.Perm (s.messages.filter fun m => m.blockID = blockID)

instance (s : MsgLog n write) (blockID : ℕ) : Decidable (s.Exact blockID) :=
  match h : s.toMsgDB.getMessages n blockID with
  | .ok messages =>
    decidable_of_iff (messages.Perm (s.messages.filter fun m => m.blockID = blockID))
      ⟨fun hperm => ⟨messages, h, hperm⟩,
        fun ⟨_, h', hperm⟩ => Except.ok.inj (h.symm.trans h') ▸ hperm⟩
  | .error _ => isFalse fun ⟨_, h', _⟩ => nomatch h.symm.trans h'

end MsgLog

def outgoingMsgDB (n : Receiver) (write : JsonObject → Bytes) :
    Machine (MsgLog n write) (MsgEvent n write) where
  initial := ⟨⟨.make ∅, 0⟩, []⟩
  step
    | .saveMsg full m, s =>
      match s.toMsgDB.saveMsg write full m.message with
      | .ok (_, db) => some ⟨db, s.saved ++ [(s.msgCounter, m)]⟩
      | .error _ => none
    | .elsewhere, s => some {s with msgCounter := (s.msgCounter + 1) % 2 ^ 64}
    | .restart, s => some ⟨⟨.make s.db.directories, 0⟩, s.saved⟩

/-- The key of a message is free, and a rotation drops no message. -/
def MsgEvent.Clear {n : Receiver} {write : JsonObject → Bytes} :
    MsgEvent n write → MsgLog n write → Prop
  | .saveMsg full m, s =>
    s.db.readString (createKey msgVersion [m.message.blockID, s.msgCounter]) = [] ∧
      (full = true → s.db.db 3 = ∅)
  | .elsewhere, _ | .restart, _ => True

section Log
variable {n : Receiver} {write : JsonObject → Bytes} {s s' : MsgLog n write}

def entryOf (e : ℕ × SentMessage n write) : Bytes × Bytes :=
  (createKey msgVersion [e.2.message.blockID, e.1], e.2.text)

/-- What is found is what was saved. -/
structure MsgLog.Logged (s : MsgLog n write) : Prop where
  opened : s.db.Opened
  find_iff : ∀ key text, s.db.find key = some text ↔ (key, text) ∈ s.saved.map entryOf
  nodup : (s.saved.map fun e => (entryOf e).1).Nodup

theorem SentMessage.text_ne_nil (m : SentMessage n write) : m.text ≠ [] := by
  obtain ⟨_, h⟩ := after_bind m.serialize
  obtain ⟨_, hlength, h⟩ := bind_eq_ok.mp h
  rw [← Except.ok.inj h]
  intro hnil
  rw [hnil] at hlength
  cases hlength

/-- A key under which nothing can be read has no entry. -/
theorem MsgLog.Logged.find_eq_none (h : s.Logged) {key : Bytes} (hfree : s.db.readString key = []) :
    s.db.find key = none := by
  cases hfind : s.db.find key with
  | none => rfl
  | some text =>
    obtain ⟨e, -, he⟩ := List.mem_map.mp ((h.find_iff key text).mp hfind)
    rw [readString_eq_find, hfind] at hfree
    have htext : e.2.text = [] := (congrArg Prod.snd he).trans hfree
    exact absurd htext e.2.text_ne_nil

/-- A message whose key is free is stored. -/
theorem saveMsg_eq_ok {full : Bool} {m : SentMessage n write} {db : MsgDB}
    (hfree : db.db.readString (createKey msgVersion [m.message.blockID, db.msgCounter]) = []) :
    db.saveMsg write full m.message = .ok (true,
      ⟨db.db.writeString full (createKey msgVersion [m.message.blockID, db.msgCounter]) m.text
        false, (db.msgCounter + 1) % 2 ^ 64⟩) := by
  refine bind_eq_ok.mpr ⟨m.text, m.serialize, ?_⟩
  refine checkState_bind_eq_ok.mpr ⟨not_isEmpty m.text_ne_nil, ?_⟩
  refine checkState_bind_eq_ok.mpr ⟨rfl, ?_⟩
  rw [hfree]
  rfl

theorem MsgLog.Logged.save (h : s.Logged) {full : Bool} {m : SentMessage n write} {counter : ℕ}
    (hfree : s.db.readString (createKey msgVersion [m.message.blockID, s.msgCounter]) = [])
    (hretain : full = true → s.db.db 3 = ∅) :
    MsgLog.Logged ⟨⟨s.db.writeString full (createKey msgVersion [m.message.blockID, s.msgCounter])
      m.text false, counter⟩, s.saved ++ [(s.msgCounter, m)]⟩ := by
  have hnone := h.find_eq_none hfree
  generalize hkey : createKey msgVersion [m.message.blockID, s.msgCounter] = key at hnone
  have hrotated := opened_rotateDBsIfNeeded h.opened full
  have hfind : ∀ k, (s.db.rotateDBsIfNeeded full).find k = s.db.find k := fun k =>
    find_rotateDBsIfNeeded h.opened fun hfull => by rw [hretain hfull]; rfl
  have hentry : entryOf (s.msgCounter, m) = (key, m.text) := by rw [entryOf, hkey]
  have hfresh : key ∉ s.saved.map fun e => (entryOf e).1 := by
    intro hmem
    obtain ⟨e, he, rfl⟩ := List.mem_map.mp hmem
    have hfound : s.db.find (entryOf e).1 = some e.2.text :=
      (h.find_iff _ _).mpr (List.mem_map_of_mem he)
    rw [hnone] at hfound
    cases hfound
  rw [writeString_of_find_eq_none h.opened hnone]
  refine ⟨opened_put hrotated _ _, fun k text => ?_, ?_⟩
  · rw [find_put hrotated, hfind, List.map_append, List.mem_append, List.map_singleton,
      List.mem_singleton, hentry, Prod.mk.injEq]
    split_ifs with hk
    · subst hk
      have hold : (k, text) ∉ s.saved.map entryOf := fun hmem =>
        absurd ((h.find_iff _ _).mpr hmem) (by rw [hnone]; nofun)
      simp [hold, eq_comm]
    · rw [h.find_iff]
      simp [hk]
  · rw [List.map_append, List.nodup_append]
    refine ⟨h.nodup, List.nodup_singleton _, ?_⟩
    intro k hk k' hk' heq
    rw [List.map_singleton, List.mem_singleton, hentry] at hk'
    have hsame : k = key := heq.trans hk'
    exact hfresh (hsame ▸ hk)

theorem MsgLog.logged_initial : (outgoingMsgDB n write).initial.Logged := by
  refine ⟨opened_make ∅, fun key text => ?_, List.nodup_nil⟩
  have hempty : (CacheLevelDB.make ∅).find key = none := rfl
  simp [outgoingMsgDB, hempty]

theorem MsgLog.Logged.step (h : s.Logged) {event : MsgEvent n write} (hclear : event.Clear s)
    (hstep : (outgoingMsgDB n write).step event s = some s') : s'.Logged := by
  cases event with
  | saveMsg full m =>
    obtain ⟨hfree, hretain⟩ := hclear
    simp only [outgoingMsgDB, saveMsg_eq_ok hfree, Option.some.injEq] at hstep
    rw [← hstep]
    exact h.save hfree hretain
  | elsewhere =>
    cases hstep
    exact ⟨h.opened, h.find_iff, h.nodup⟩
  | restart =>
    cases hstep
    rw [make_of_opened h.opened]
    exact ⟨h.opened, h.find_iff, h.nodup⟩

/-! ### What is read -/

/-- A key begins with the key of a block when the number of its block begins with the digits. -/
theorem createKey_prefix_iff (version : Bytes) (b b' counter : ℕ) :
    createKey version [b] <+: createKey version [b', counter] ↔
      decimalText b <+: decimalText b' := by
  have hdigits : ∀ c ∈ decimalText b, c ≠ 58 := fun c hc hcolon =>
    absurd (isDigit_of_mem_decimalText (hcolon ▸ hc)) (by decide)
  simp only [createKey, List.flatMap_cons, List.flatMap_nil, List.append_nil, List.cons_append]
  rw [List.prefix_append_right_inj, List.cons_prefix_cons]
  simp only [true_and]
  constructor
  · intro h
    obtain hpre | ⟨rest, hrest⟩ := List.prefix_or_prefix_of_prefix h (List.prefix_append _ _)
    · exact hpre
    · rw [← hrest, List.prefix_append_right_inj] at h
      cases rest with
      | nil => exact ⟨[], hrest.symm ▸ (by simp)⟩
      | cons c rest =>
        obtain ⟨rfl, -⟩ := List.cons_prefix_cons.mp h
        exact absurd rfl (hdigits 58 (hrest ▸ by simp))
  · exact fun h => h.trans (List.prefix_append _ _)

theorem mapM_parse (l : List (ℕ × SentMessage n write)) :
    (l.map fun e => (⟨(entryOf e).1, (entryOf e).2⟩ : Sigma fun _ : Bytes => Bytes)).mapM
      (fun e => parseMessage n e.2) = .ok (l.map fun e => e.2.message) := by
  induction l with
  | nil => rfl
  | cons e rest ih =>
    rw [List.map_cons, List.mapM_cons]
    refine bind_eq_ok.mpr ⟨e.2.message, e.2.parse, ?_⟩
    exact bind_eq_ok.mpr ⟨_, ih, rfl⟩

/-- The entries that are read are those of the messages whose keys begin so. -/
theorem MsgLog.Logged.entries_perm (h : s.Logged) (start : Bytes) :
    (s.db.readPrefixRange start).entries.Perm
      ((s.saved.filter fun e => start <+: (entryOf e).1).map fun e =>
        (⟨(entryOf e).1, (entryOf e).2⟩ : Sigma fun _ : Bytes => Bytes)) := by
  refine (List.perm_ext_iff_of_nodup (s.db.readPrefixRange start).nodupKeys.nodup ?_).mpr ?_
  · have hkeys : ((s.saved.filter fun e => start <+: (entryOf e).1).map
        fun e => (entryOf e).1).Nodup :=
      h.nodup.sublist (List.filter_sublist.map _)
    exact List.Nodup.of_map Sigma.fst (by simpa [List.map_map, Function.comp_def] using hkeys)
  · rintro ⟨key, text⟩
    rw [← AList.mem_lookup_iff, Option.mem_def, lookup_readPrefixRange, List.mem_map]
    split_ifs with hstart
    · rw [h.find_iff, List.mem_map]
      constructor
      · rintro ⟨e, he, heq⟩
        refine ⟨e, List.mem_filter.mpr ⟨he, ?_⟩, ?_⟩
        · rw [heq]
          exact decide_eq_true hstart
        · rw [heq]
      · rintro ⟨e, he, heq⟩
        obtain ⟨hkey, htext⟩ := Sigma.mk.inj heq
        exact ⟨e, (List.mem_filter.mp he).1, Prod.ext hkey (eq_of_heq htext)⟩
    · refine iff_of_false nofun ?_
      rintro ⟨e, he, heq⟩
      have hkey := of_decide_eq_true (List.mem_filter.mp he).2
      rw [(Sigma.mk.inj heq).1] at hkey
      exact hstart hkey

/-- What `getMessages` returns: the messages of all blocks whose numbers begin with the digits. -/
theorem MsgLog.Logged.getMessages (h : s.Logged) (b : ℕ) :
    ∃ l : List (ℕ × SentMessage n write),
      s.toMsgDB.getMessages n b = .ok (l.map fun e => e.2.message) ∧
      l.Perm (s.saved.filter fun e => decimalText b <+: decimalText e.2.message.blockID) := by
  have hperm := ((List.perm_insertionSort (fun a b => a.1 ≤ b.1) _).trans
    (h.entries_perm (createKey msgVersion [b])))
  obtain ⟨l, hl, hsorted⟩ := exists_perm_of_perm_map hperm
  refine ⟨l, ?_, ?_⟩
  · rw [MsgDB.getMessages, hsorted, mapM_parse]
    rfl
  · refine hl.trans (List.Perm.of_eq (List.filter_congr fun e _ => ?_))
    rw [decide_eq_decide]
    exact createKey_prefix_iff _ _ _ _

/-- After every run of `saveMsg` calls and restarts in which every message gets a free key and no
rotation drops one, `getMessages` returns exactly the messages of a block that were saved when no
message was saved for another block whose number begins with the same digits. -/
theorem getMessages_exact_iff (n : Receiver) (write : JsonObject → Bytes)
    (events : List (MsgEvent n write)) (s : MsgLog n write)
    (hrun : (outgoingMsgDB n write).run events = some s)
    (hclear : (outgoingMsgDB n write).Keeps MsgEvent.Clear (outgoingMsgDB n write).initial events)
    (b : ℕ) :
    s.Exact b ↔ ∀ m ∈ s.messages, decimalText b <+: decimalText m.blockID → m.blockID = b := by
  have hlogged : s.Logged := Machine.run_invariant_of_keeps hrun hclear MsgLog.logged_initial
    fun event s s' hs hc hstep => hs.step hc hstep
  obtain ⟨l, hread, hl⟩ := hlogged.getMessages b
  have hmessages : (l.map fun e => e.2.message).Perm
      (s.messages.filter fun m => decimalText b <+: decimalText m.blockID) := by
    rw [MsgLog.messages, List.filter_map]
    exact hl.map _
  constructor
  · rintro ⟨messages, hmessages', hperm⟩ m hm hdigits
    cases hread.symm.trans hmessages'
    have hmem : m ∈ s.messages.filter fun m => m.blockID = b := by
      rw [← hperm.mem_iff, hmessages.mem_iff]
      exact List.mem_filter.mpr ⟨hm, decide_eq_true hdigits⟩
    exact of_decide_eq_true (List.mem_filter.mp hmem).2
  · intro h
    refine ⟨_, hread, hmessages.trans (List.Perm.of_eq (List.filter_congr fun m hm => ?_))⟩
    rw [decide_eq_decide]
    refine ⟨h m hm, ?_⟩
    rintro rfl
    exact List.prefix_refl _

end Log

/-! ### Two runs -/

/-- A vote that a node without an SGX server signed. -/
def vote (blockID msgID : UInt64) : NetworkMessage :=
  {NetworkMessage.first with
    blockID := blockID.toNat
    msgID := msgID.toNat
    ecdsaSig := toHex (List.replicate 32 7)}

def votes : List (UInt64 × UInt64) := [(5, 1), (5, 2), (10, 3)]

def voteReader : Receiver :=
  {mockupReceiver [] with
    rapidjson := fun text =>
      (votes.map fun v => (vote v.1 v.2).members).find? fun d => text = cString (writeEscaped d)}

theorem wellBuilt_vote {v : UInt64 × UInt64} (h : v ∈ votes) :
    WellBuilt voteReader (vote v.1 v.2) := by
  have hcorrect : mockupSender.Correct voteReader := {correct_mockupSender [] with}
  have hbuild : votes.all fun v =>
      mockupSender.build v.2 1 (.bvBroadcast v.1 1 0 0) = .ok (vote v.1 v.2) := by
    decide +kernel
  exact wellBuilt_of_build hcorrect (by decide)
    (of_decide_eq_true (List.all_eq_true.mp hbuild v h))

theorem readsBack_vote {v : UInt64 × UInt64} (h : v ∈ votes) :
    ReadsBack voteReader writeEscaped (vote v.1 v.2).members := by
  have hread : votes.all fun v =>
      16 < (cString (writeEscaped (vote v.1 v.2).members)).length ∧
        voteReader.rapidjson (cString (writeEscaped (vote v.1 v.2).members)) =
          some (vote v.1 v.2).members := by
    decide +kernel
  have hreadVote := of_decide_eq_true (List.all_eq_true.mp hread v h)
  exact hreadVote

def sentVote (v : UInt64 × UInt64) (h : v ∈ votes) : SentMessage voteReader writeEscaped :=
  .ofWellBuilt (wellBuilt_vote h) (readsBack_vote h) (by simp [vote, NetworkMessage.first])

def voteLog : Machine (MsgLog voteReader writeEscaped) (MsgEvent voteReader writeEscaped) :=
  outgoingMsgDB voteReader writeEscaped

instance {n : Receiver} {write : JsonObject → Bytes} :
    ∀ (event : MsgEvent n write) (s : MsgLog n write), Decidable (event.Clear s)
  | .saveMsg _ _, _ => inferInstanceAs (Decidable (_ ∧ _))
  | .elsewhere, _ | .restart, _ => inferInstanceAs (Decidable True)

/-- Two votes are saved for a block, and after a restart one for another block. -/
def clearEvents : List (MsgEvent voteReader writeEscaped) :=
  [.saveMsg false (sentVote (5, 1) (by decide)), .saveMsg false (sentVote (5, 2) (by decide)),
    .restart, .elsewhere, .saveMsg false (sentVote (10, 3) (by decide))]

theorem getMessages_exact_votes :
    ∃ s, voteLog.run clearEvents = some s ∧ s.messages.length = 3 ∧ s.Exact 5 := by
  obtain ⟨s, hrun, hlength, hother⟩ : ∃ s, voteLog.run clearEvents = some s ∧
      s.messages.length = 3 ∧
        ∀ m ∈ s.messages, decimalText 5 <+: decimalText m.blockID → m.blockID = 5 :=
    Machine.exists_run (by decide +kernel)
  have hclear : voteLog.Keeps MsgEvent.Clear voteLog.initial clearEvents := by decide +kernel
  exact ⟨s, hrun, hlength, (getMessages_exact_iff _ _ clearEvents s hrun hclear 5).mpr hother⟩

/-- A vote for the block 10 is returned for the block 1; and of two votes for a block with a restart
between them the second is not stored. -/
theorem other_block_or_lost :
    (∃ s, voteLog.run [.saveMsg false (sentVote (10, 3) (by decide))] = some s ∧
      s.toMsgDB.getMessages voteReader 1 = .ok [vote 10 3] ∧ ¬ s.Exact 1) ∧
    ∃ s, voteLog.run [.saveMsg false (sentVote (5, 1) (by decide)), .restart,
        .saveMsg false (sentVote (5, 2) (by decide))] = some s ∧
      s.toMsgDB.getMessages voteReader 5 = .ok [vote 5 1] ∧ ¬ s.Exact 5 :=
  ⟨Machine.exists_run (by decide +kernel), Machine.exists_run (by decide +kernel)⟩

end SkaleConsensus.Db
