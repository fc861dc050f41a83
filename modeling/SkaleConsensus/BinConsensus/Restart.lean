import SkaleConsensus.BinConsensus.InstanceCache

/-! A node that is stopped and started again.

The instances of a node and the queue of its message thread are memory. In LevelDB are
the proposal vector of a block and the messages that were broadcast. A node that starts
puts the vector of the block it is at into its queue and broadcasts that block's messages
again; its instances start from nothing, since the state of a consensus is not saved
(`CONSENSUS_STATE_PERSISTENCE` is not defined). So an instance sends its AUX message for a
round once in a lifetime, and again in the next one, for the value that comes first then. -/
namespace SkaleConsensus.BinConsensus
open Library Relation InstanceCache

/-! ### The node -/

structure Voter where
  up : Bool
  /-- The last block, the instances and the queue of the message thread. -/
  cache : InstanceCache
  /-- The counter of `MsgDB`, which starts from zero with the process. -/
  msgCounter : ℕ
  proposalVectorDB : ℕ → Option (SchainIndex → Bool)
  /-- Messages under their block and counter. -/
  outgoingMsgDB : List ((ℕ × ℕ) × Message)
  /-- Not in the code: everything that was handed to the network. -/
  broadcasts : List Message

namespace Voter

def start (c : Schain) : Voter where
  up := true
  cache := .start c 0
  msgCounter := 0
  proposalVectorDB _ := none
  outgoingMsgDB := []
  broadcasts := []

/-- `MsgDB::saveMsg`: what is there under the key stays. -/
def saveMsg (s : Voter) (m : Message) : Voter :=
  {s with
    msgCounter := s.msgCounter + 1
    outgoingMsgDB :=
      if s.outgoingMsgDB.any (·.1 == (m.blockID, s.msgCounter)) then s.outgoingMsgDB
      else s.outgoingMsgDB ++ [((m.blockID, s.msgCounter), m)]}

/-- `MsgDB::getMessages`: the keys whose text starts with the number of the block. -/
def getMessages (s : Voter) (blockID : ℕ) : List Message :=
  (s.outgoingMsgDB.filter fun entry =>
    (Nat.toDigits 10 blockID).isPrefixOf (Nat.toDigits 10 entry.1.1)).map Prod.snd

/-- `startConsensus`. -/
def startConsensus (s : Voter) (blockID : ℕ) (proposals : SchainIndex → Bool) : Voter :=
  if blockID ≤ s.cache.lastCommittedBlockID then s
  else if s.cache.lastCommittedBlockID + 1 < blockID then s
  else {s with cache := {s.cache with
    messageQueue := s.cache.messageQueue ++ [.proposal blockID proposals]}}

end Voter

section Step
variable (c : Schain)

/-- The message thread at the end of its task. -/
def underway (s : Voter) : InstanceCache :=
  match s.cache.messageQueue with
  | [] => s.cache
  | task :: rest =>
    InstanceCache.routeAndProcessMessage c task {s.cache with messageQueue := rest}

/-- What it broadcasts. -/
def toSend (s : Voter) : List Message := (underway c s).sent.drop s.cache.sent.length

inductive VoterEvent where
  /-- `tryStartingConsensus`. -/
  | tryStart (blockID : ℕ) (proposals : SchainIndex → Bool)
  /-- A message of the network, new or deferred before. -/
  | receive (me : MessageEnvelope)
  | process
  /-- A block is committed, the next one or, after a catchup, a later one. -/
  | commit (blockID : ℕ)
  /-- `rebroadcastAllMessagesForCurrentBlock`. -/
  | rebroadcast
  /-- The node goes down while its thread is at a task: so many messages of it were saved,
  so many of those sent. -/
  | crash (saved sent : ℕ)
  | restart

def voterStep : VoterEvent → Voter → Option Voter
  | .tryStart blockID proposals, s =>
    if s.up = true then
      match s.proposalVectorDB blockID with
      | some _ => some s
      | none => some ({s with
          proposalVectorDB := Function.update s.proposalVectorDB blockID (some proposals)}
            |>.startConsensus blockID proposals)
    else none
  | .receive me, s =>
    if s.up = true ∧ me.origin = .network then
      some {s with cache := s.cache.postDeferOrDrop c me}
    else none
  | .process, s =>
    if s.up = true ∧ s.cache.messageQueue ≠ [] then
      let saved := (toSend c s).foldl Voter.saveMsg s
      some {saved with cache := underway c s, broadcasts := s.broadcasts ++ toSend c s}
    else none
  | .commit blockID, s =>
    if s.up = true ∧ s.cache.lastCommittedBlockID < blockID then
      some {s with cache := {s.cache with lastCommittedBlockID := blockID}}
    else none
  | .rebroadcast, s =>
    if s.up = true then
      some {s with broadcasts := s.broadcasts ++ s.getMessages (s.cache.lastCommittedBlockID + 1)}
    else none
  | .crash saved sent, s =>
    if s.up = true ∧ sent ≤ saved ∧ saved ≤ sent + 1 then
      let stopped := ((toSend c s).take saved).foldl Voter.saveMsg s
      some {stopped with
        up := false, cache := underway c s, broadcasts := s.broadcasts ++ (toSend c s).take sent}
    else none
  | .restart, s =>
    if s.up = false then
      let blockID := s.cache.lastCommittedBlockID + 1
      let fresh : Voter :=
        {s with up := true, cache := .start c s.cache.lastCommittedBlockID, msgCounter := 0}
      match s.proposalVectorDB blockID with
      | none => some fresh
      | some proposals =>
        some {fresh.startConsensus blockID proposals with
          broadcasts := s.broadcasts ++ s.getMessages blockID}
    else none

def voter : Machine Voter VoterEvent := ⟨.start c, voterStep c⟩

end Step

/-! ### What a task does to the instances -/

variable {c : Schain}

/-- The first estimate comes from the parent. -/
theorem Effects.proposals_zero {me : MessageEnvelope} {x x' : Exec} (h : Effects c me x x') :
    x'.inst.proposals 0 = x.inst.proposals 0 ∨
      me.origin = .parent ∧ x'.inst.proposals 0 = some me.message.value := by
  induction h with
  | refl => exact .inl rfl
  | @tail y z _ hstep ih =>
    cases hstep with
    | propose b hparent hvalue =>
      refine .inr ⟨hparent, ?_⟩
      rw [hvalue]
      exact Function.update_self 0 _ y.inst.proposals
    | nextRound v =>
      have hsame : (y.nextRound v).inst.proposals 0 = y.inst.proposals 0 :=
        Function.update_of_ne (Nat.succ_ne_zero y.inst.currentRound).symm (some v) y.inst.proposals
      rw [hsame]
      exact ih
    | _ => exact ih

/-- The value of the saved vector for an instance. -/
def Vectored (vectors : ℕ → Option (SchainIndex → Bool)) (K : ProtocolKey) (v : Value) : Prop :=
  ∃ proposals, vectors K.blockID = some proposals ∧
    v = Value.ofBool (proposals K.blockProposerIndex)

/-- A proposal is the node's own, and as in its saved vector. -/
def Owned (c : Schain) (vectors : ℕ → Option (SchainIndex → Bool)) (me : MessageEnvelope) : Prop :=
  me.origin = .parent → me.srcSchainIndex = c.schainIndex ∧
    (∃ b, me.message.value = Value.ofBool b) ∧ Vectored vectors me.message.key me.message.value

/-- A task in the queue: a proposal has its vector saved, a message is from the network. -/
def Task.Sound (vectors : ℕ → Option (SchainIndex → Bool)) : Task → Prop
  | .proposal b proposals => vectors b = some proposals
  | .message me => me.origin = .network

theorem Task.Sound.owned {vectors : ℕ → Option (SchainIndex → Bool)} {task : Task}
    (h : task.Sound vectors) : task.All c (Owned c vectors) := by
  cases task with
  | proposal b proposals => exact fun i _ => ⟨rfl, ⟨proposals i, rfl⟩, proposals, h, rfl⟩
  | message me => exact fun hparent => absurd (h.symm.trans hparent) (by decide)

namespace InstanceCache

/-- The instances are sound, and their first estimates are those of the saved vectors. -/
structure Sound (c : Schain) (vectors : ℕ → Option (SchainIndex → Bool)) (s : InstanceCache) :
    Prop where
  exec : ∀ p, ExecInv c (s.key p) (s.instances p).exec
  first : ∀ p v, (s.instances p).exec.inst.proposals 0 = some v → Vectored vectors (s.key p) v

/-- One of the instances that were made has sent the message. -/
def Has (s : InstanceCache) (m : Message) : Prop :=
  ∃ p < s.made, s.key p = m.key ∧ m ∈ (s.instances p).exec.sent

section Instances
variable {vectors : ℕ → Option (SchainIndex → Bool)} {s : InstanceCache} {b : ℕ}

theorem Sound.start (last : ℕ) : Sound c vectors (start c last) :=
  ⟨fun _ => .start c _, nofun⟩

theorem Sound.getChild (h : Sound c vectors s) (K : ProtocolKey) :
    Sound c vectors (getChild c K s).2 := by
  have hmake : ∀ p, ExecInv c ((s.make K).key p) ((s.make K).instances p).exec ∧
      ∀ v, ((s.make K).instances p).exec.inst.proposals 0 = some v →
        Vectored vectors ((s.make K).key p) v :=
    (Function.forall_update_iff s.instances fun _ x => ExecInv c x.exec.inst.key x.exec ∧
      ∀ v, x.exec.inst.proposals 0 = some v → Vectored vectors x.exec.inst.key v).mpr
      ⟨⟨.start c K, nofun⟩, fun p _ => ⟨h.exec p, h.first p⟩⟩
  unfold InstanceCache.getChild
  dsimp only
  split_ifs
  · exact ⟨h.exec, h.first⟩
  · exact h
  · exact ⟨fun p => (hmake p).1, fun p => (hmake p).2⟩
  · exact h

theorem Has.getChild {m : Message} (h : s.Has m) (K : ProtocolKey) :
    (getChild c K s).2.Has m := by
  obtain ⟨p, hp, hkey, hmem⟩ := h
  have hmake : (s.make K).Has m := by
    refine ⟨p, Nat.lt_succ_of_lt hp, (key_make_of_lt hp K).trans hkey, ?_⟩
    show m ∈ (Function.update s.instances s.made _ p).exec.sent
    rwa [Function.update_of_ne hp.ne]
  unfold InstanceCache.getChild
  dsimp only
  split_ifs
  · exact ⟨p, hp, hkey, hmem⟩
  · exact ⟨p, hp, hkey, hmem⟩
  · exact hmake
  · exact ⟨p, hp, hkey, hmem⟩

theorem Sound.effects (h : Sound c vectors s) {p : ℕ} {me : MessageEnvelope}
    (hkey : s.key p = me.message.key) (hown : Owned c vectors me) :
    Effects c me (s.instances p).exec (handle c (s.instances p).exec me) := by
  refine processMessage_effects hkey.symm (h.exec p).decidedInTime fun hparent => ?_
  obtain ⟨hsource, hbinary, proposals, hvector, hvalue⟩ := hown hparent
  refine ⟨hsource, hbinary, ?_⟩
  cases hfirst : (s.instances p).exec.inst.proposals 0 with
  | none => exact .inl rfl
  | some v =>
    obtain ⟨proposals', hvector', rfl⟩ := h.first _ v hfirst
    rw [hkey, hvector] at hvector'
    obtain rfl := Option.some.inj hvector'
    rw [hkey]
    exact .inr (congrArg some hvalue.symm)

/-- The cache after instances of block `b` were looked up and handed messages. -/
structure Advanced (c : Schain) (vectors : ℕ → Option (SchainIndex → Bool)) (b : ℕ)
    (s t : InstanceCache) : Prop where
  inv : Inv t
  sound : Sound c vectors t
  last : t.lastCommittedBlockID = s.lastCommittedBlockID
  queue : t.messageQueue = s.messageQueue
  has : ∀ m, s.Has m → t.Has m
  sent : ∃ new, t.sent = s.sent ++ new ∧ ∀ m ∈ new, m.blockID = b ∧ t.Has m

theorem Advanced.refl (hinv : Inv s) (hsound : Sound c vectors s) : Advanced c vectors b s s :=
  ⟨hinv, hsound, rfl, rfl, fun _ h => h, [], (List.append_nil _).symm, nofun⟩

theorem Advanced.hand {t : InstanceCache} (h : Advanced c vectors b s t) {p : ℕ}
    {me : MessageEnvelope} (hme : Owned c vectors me) (hb : me.message.blockID = b)
    (hfound : (t.children me.message.blockProposerIndex).get? me.message.blockID = some p) :
    Advanced c vectors b s (t.hand c p me) := by
  obtain ⟨hp, hkey⟩ := h.inv.found _ _ p hfound
  have hkeys : ∀ q, (t.hand c p me).key q = t.key q := key_hand (h.inv.orderly p) me
  have heffects := h.sound.effects hkey hme
  have hexec := (h.sound.exec p).steps heffects
  have hself : (t.hand c p me).instances p = ⟨handle c (t.instances p).exec me, _⟩ :=
    Function.update_self ..
  have hother : ∀ q ≠ p, (t.hand c p me).instances q = t.instances q :=
    fun q hne => Function.update_of_ne hne ..
  have hhas : ∀ m, t.Has m → (t.hand c p me).Has m := by
    rintro m ⟨q, hq, hqkey, hmem⟩
    refine ⟨q, hq, (hkeys q).trans hqkey, ?_⟩
    rcases eq_or_ne q p with rfl | hne
    · rw [hself]
      exact heffects.grows.sent hmem
    · rwa [hother q hne]
  obtain ⟨new, hsent, hnew⟩ := h.sent
  refine {
    inv := h.inv.hand p me
    sound := ⟨fun q => ?_, fun q v hv => ?_⟩
    last := h.last
    queue := h.queue
    has := fun m hm => hhas m (h.has m hm)
    sent := ⟨new ++ (handle c (t.instances p).exec me).sent.drop
      (t.instances p).exec.sent.length, ?_, fun m hm => ?_⟩ }
  · rw [hkeys]
    rcases eq_or_ne q p with rfl | hne
    · rw [hself]
      exact hexec
    · rw [hother q hne]
      exact h.sound.exec q
  · rw [hkeys]
    rcases eq_or_ne q p with rfl | hne
    · rw [hself] at hv
      rcases heffects.proposals_zero with hsame | ⟨hparent, hfirst⟩
      · exact h.sound.first q v (hsame.symm.trans hv)
      · rw [hkey, ← Option.some.inj (hfirst.symm.trans hv)]
        exact (hme hparent).2.2
    · rw [hother q hne] at hv
      exact h.sound.first q v hv
  · show t.sent ++ _ = _
    rw [hsent, List.append_assoc]
  · rcases List.mem_append.mp hm with hold | hfresh
    · exact ⟨(hnew m hold).1, hhas m (hnew m hold).2⟩
    · have hmem := List.mem_of_mem_drop hfresh
      have hmkey := (hexec.sentKey m hmem).trans hkey
      refine ⟨(congrArg ProtocolKey.blockID hmkey).trans hb, p, hp, ?_, ?_⟩
      · rw [hkeys, hkey, hmkey]
      · rw [hself]
        exact hmem

theorem keptBy_advanced (hrange : s.InRange b) :
    KeptBy c b (Owned c vectors) (Advanced c vectors b s) where
  getChild t K h hb := by
    obtain ⟨hlast, hqueue, hsent⟩ := getChild_frame (c := c) t K
    obtain ⟨new, hnew, hof⟩ := h.sent
    have hrange' : t.InRange K.blockID := by
      unfold InRange
      rwa [h.last, hb]
    exact {
      inv := h.inv.getChild hrange'
      sound := h.sound.getChild K
      last := hlast.trans h.last
      queue := hqueue.trans h.queue
      has := fun m hm => (h.has m hm).getChild K
      sent := ⟨new, hsent.trans hnew, fun m hm => ⟨(hof m hm).1, (hof m hm).2.getChild K⟩⟩ }
  hand t p me h hme hb hfound := h.hand hme hb hfound

end Instances

end InstanceCache

/-! ### Every lifetime -/

namespace Voter

def known (s : Voter) : List Message := s.broadcasts ++ s.outgoingMsgDB.map Prod.snd

/-- The AUX messages for block `b` are those of the instances that are alive. -/
def Current (b : ℕ) (s : Voter) : Prop :=
  ∀ m ∈ s.known, m.msgType = .auxBroadcast → m.blockID = b → s.cache.Has m

/-- Block `b` is too old to be voted on. -/
def Retired (b : ℕ) (s : Voter) : Prop :=
  b + MAX_ACTIVE_CONSENSUSES ≤ s.cache.lastCommittedBlockID + 1 ∧
    ∀ task ∈ s.cache.messageQueue, task.blockID ≠ b

/-- The AUX messages of one instance and round have one value. -/
def Unequivocal (b : ℕ) (s : Voter) : Prop :=
  ∀ m ∈ s.known, ∀ m' ∈ s.known, m.blockID = b → m'.key = m.key → ∀ r, m.isAUX r → m'.isAUX r →
    m.value = m'.value

theorem mem_known_of_getMessages {s : Voter} {b : ℕ} {m : Message} (h : m ∈ s.getMessages b) :
    m ∈ s.known := by
  obtain ⟨entry, hentry, rfl⟩ := List.mem_map.mp h
  exact List.mem_append_right _ (List.mem_map_of_mem (List.mem_filter.mp hentry).1)

theorem mem_saved_of_foldl_saveMsg {l : List Message} {s : Voter} {m : Message}
    (h : m ∈ (l.foldl saveMsg s).outgoingMsgDB.map Prod.snd) :
    m ∈ s.outgoingMsgDB.map Prod.snd ∨ m ∈ l := by
  induction l generalizing s with
  | nil => exact .inl h
  | cons m' rest ih =>
    rcases ih h with hsaved | hrest
    · dsimp only [saveMsg] at hsaved
      split_ifs at hsaved
      · exact .inl hsaved
      · rw [List.map_append, List.mem_append] at hsaved
        refine hsaved.imp_right fun hnew => ?_
        rw [List.mem_singleton.mp hnew]
        exact List.mem_cons_self
    · exact .inr (List.mem_cons_of_mem m' hrest)

/-- To save a message changes the database of messages only. -/
theorem proposalVectorDB_foldl_saveMsg (l : List Message) (s : Voter) :
    (l.foldl saveMsg s).proposalVectorDB = s.proposalVectorDB := by
  induction l generalizing s with
  | nil => rfl
  | cons m rest ih => exact ih (s.saveMsg m)

end Voter

/-- What every lifetime of a node keeps, for the messages of block `b`. -/
structure VoterInv (c : Schain) (b : ℕ) (s : Voter) : Prop where
  inv : s.cache.Inv
  sound : s.cache.Sound c s.proposalVectorDB
  queue : ∀ task ∈ s.cache.messageQueue, task.Sound s.proposalVectorDB
  once : s.Current b ∨ s.Retired b ∧ s.Unequivocal b

section Lifetime
variable {b blockID : ℕ} {s s' : Voter}

theorem voterInv_start : VoterInv c b (.start c) :=
  ⟨.start c 0, .start 0, nofun, .inl nofun⟩

theorem VoterInv.unequivocal (h : VoterInv c b s) : s.Unequivocal b := by
  rcases h.once with hcurrent | ⟨-, hunequivocal⟩
  · intro m hm m' hm' hb hkey r haux haux'
    obtain ⟨p, hp, hpkey, hmem⟩ := hcurrent m hm haux.1 hb
    obtain ⟨q, hq, hqkey, hmem'⟩ :=
      hcurrent m' hm' haux'.1 ((congrArg ProtocolKey.blockID hkey).trans hb)
    obtain rfl := h.inv.alone p q hp hq (hpkey.trans (hkey.symm.trans hqkey.symm))
    exact (h.sound.exec p).auxUnique m hmem m' hmem' r haux haux'
  · exact hunequivocal

/-- Nothing new is known. -/
theorem Voter.Unequivocal.mono (h : s.Unequivocal b)
    (hknown : ∀ m ∈ s'.known, m.blockID = b → m ∈ s.known) : s'.Unequivocal b :=
  fun m hm m' hm' hb hkey => h m (hknown m hm hb) m'
    (hknown m' hm' ((congrArg ProtocolKey.blockID hkey).trans hb)) hb hkey

/-- The node is not started again while block `b` can be voted on and an AUX message for it
has been broadcast or saved. -/
def NoneVoted (b : ℕ) : VoterEvent → Voter → Prop
  | .restart, s => s.cache.lastCommittedBlockID + 1 < b + MAX_ACTIVE_CONSENSUSES →
    ∀ m ∈ s.known, m.msgType = .auxBroadcast → m.blockID ≠ b
  | _, _ => True

/-- The task that the message thread takes comes in time. -/
def InTime : VoterEvent → Voter → Prop
  | .process, s | .crash _ _, s => InstanceCache.Timely .process s.cache
  | _, _ => True

/-- The message thread takes the next task. -/
theorem VoterInv.worked (h : VoterInv c b s) (htimely : InstanceCache.Timely .process s.cache)
    (hcache : s'.cache = underway c s) (hvectors : s'.proposalVectorDB = s.proposalVectorDB)
    (hknown : ∀ m ∈ s'.known, m ∈ s.known ∨ m ∈ toSend c s) : VoterInv c b s' := by
  unfold toSend at hknown
  unfold underway at hcache hknown
  cases hqueue : s.cache.messageQueue with
  | nil =>
    simp only [hqueue, List.drop_length, List.not_mem_nil, or_false] at hcache hknown
    refine ⟨hcache ▸ h.inv, hcache ▸ hvectors ▸ h.sound, hcache ▸ hvectors ▸ h.queue, ?_⟩
    unfold Voter.Current Voter.Retired
    rw [hcache]
    exact h.once.imp (fun hcurrent m hm => hcurrent m (hknown m hm))
      (.imp_right (·.mono fun m hm _ => hknown m hm))
  | cons task rest =>
    simp only [hqueue] at hcache hknown
    rw [← hcache] at hknown
    have htask : task ∈ s.cache.messageQueue := hqueue ▸ List.mem_cons_self
    have hrest : rest ⊆ s.cache.messageQueue := hqueue ▸ List.subset_cons_self task rest
    have hadvanced : InstanceCache.Advanced c s.proposalVectorDB task.blockID
        {s.cache with messageQueue := rest} s'.cache := by
      rw [hcache]
      refine routeAndProcessMessage_kept (h.queue task htask).owned
        (.refl {h.inv with} ⟨h.sound.exec, h.sound.first⟩) fun hnext hold => ?_
      exact keptBy_advanced
        ⟨hnext, (htimely task (by rw [hqueue]; rfl)).resolve_right (Nat.not_lt.mpr hold)⟩
    obtain ⟨new, hsent, hnew⟩ := hadvanced.sent
    have hnew' : ∀ m ∈ s'.known, m ∈ s.known ∨ m.blockID = task.blockID ∧ s'.cache.Has m := by
      intro m hm
      refine (hknown m hm).imp_right fun hfresh => hnew m ?_
      rw [hsent] at hfresh
      rwa [List.drop_left] at hfresh
    refine ⟨hadvanced.inv, hvectors ▸ hadvanced.sound, ?_, ?_⟩
    · rw [hadvanced.queue, hvectors]
      exact fun t ht => h.queue t (hrest ht)
    · rcases h.once with hcurrent | ⟨hretired, hunequivocal⟩
      · refine .inl fun m hm haux hb => ?_
        rcases hnew' m hm with hold | hfresh
        · exact hadvanced.has m (hcurrent m hold haux hb)
        · exact hfresh.2
      · refine .inr ⟨⟨?_, ?_⟩, hunequivocal.mono fun m hm hb => ?_⟩
        · rw [hadvanced.last]
          exact hretired.1
        · rw [hadvanced.queue]
          exact fun t ht => hretired.2 t (hrest ht)
        · refine (hnew' m hm).resolve_right fun hfresh => ?_
          exact hretired.2 task htask (hfresh.1.symm.trans hb)

/-- Nothing happens but that a message or a proposal may be queued. -/
theorem VoterInv.queued (h : VoterInv c b s) {t : InstanceCache} {b' : ℕ}
    (ht : InstanceCache.Advanced c s.proposalVectorDB b' s.cache t) {tasks : List Task}
    (htasks : ∀ task ∈ tasks, task.Sound s.proposalVectorDB ∧
      (b + MAX_ACTIVE_CONSENSUSES ≤ s.cache.lastCommittedBlockID + 1 → task.blockID ≠ b)) :
    VoterInv c b {s with cache := {t with messageQueue := t.messageQueue ++ tasks}} := by
  refine ⟨{ht.inv with}, ⟨ht.sound.exec, ht.sound.first⟩, fun task htask => ?_, ?_⟩
  · rw [ht.queue] at htask
    rcases List.mem_append.mp htask with hold | hnew
    · exact h.queue task hold
    · exact (htasks task hnew).1
  · refine h.once.imp (fun hcurrent m hm haux hb => ht.has m (hcurrent m hm haux hb))
      fun hretired => ⟨⟨?_, fun task htask => ?_⟩, hretired.2⟩
    · rw [ht.last]
      exact hretired.1.1
    · rw [ht.queue] at htask
      rcases List.mem_append.mp htask with hold | hnew
      · exact hretired.1.2 task hold
      · exact (htasks task hnew).2 hretired.1.1

theorem VoterInv.startConsensus (h : VoterInv c b s) {proposals : SchainIndex → Bool}
    (hvector : s.proposalVectorDB blockID = some proposals) :
    VoterInv c b (s.startConsensus blockID proposals) := by
  unfold Voter.startConsensus
  split_ifs with hold hfuture
  · exact h
  · exact h
  · refine h.queued (.refl (b := 0) h.inv h.sound) fun task htask => ?_
    rw [List.mem_singleton.mp htask]
    refine ⟨hvector, fun hretired hb => ?_⟩
    have hblock : blockID = b := hb
    unfold MAX_ACTIVE_CONSENSUSES at hretired
    omega

theorem VoterInv.receive (h : VoterInv c b s) {me : MessageEnvelope}
    (horigin : me.origin = .network) :
    VoterInv c b {s with cache := s.cache.postDeferOrDrop c me} := by
  refine postDeferOrDrop_kept (Q := fun t => VoterInv c b {s with cache := t})
    (.refl h.inv h.sound) keptBy_advanced (fun t ht => ?_) fun t hrange ht => ?_
  · have hleft := h.queued ht (List.forall_mem_nil _)
    rwa [List.append_nil] at hleft
  · refine h.queued ht fun task htask => ?_
    rw [List.mem_singleton.mp htask]
    refine ⟨horigin, fun hretired hb => ?_⟩
    have hblock : me.message.blockID = b := hb
    have hwindow := hrange.2
    omega

theorem VoterInv.saveVector (h : VoterInv c b s) {proposals : SchainIndex → Bool}
    (hnone : s.proposalVectorDB blockID = none) :
    VoterInv c b {s with
      proposalVectorDB := Function.update s.proposalVectorDB blockID (some proposals)} := by
  have hkept : ∀ b' p, s.proposalVectorDB b' = some p →
      Function.update s.proposalVectorDB blockID (some proposals) b' = some p := by
    intro b' p hp
    rcases eq_or_ne b' blockID with rfl | hne
    · rw [hnone] at hp
      cases hp
    · rw [Function.update_of_ne hne, hp]
  refine ⟨h.inv, ⟨h.sound.exec, fun p v hv => ?_⟩, fun task htask => ?_, h.once⟩
  · obtain ⟨vector, hvector, hvalue⟩ := h.sound.first p v hv
    exact ⟨vector, hkept _ _ hvector, hvalue⟩
  · have hsound := h.queue task htask
    cases task with
    | proposal b' p => exact hkept b' p hsound
    | message me => exact hsound

theorem VoterInv.commit (h : VoterInv c b s) (hlt : s.cache.lastCommittedBlockID < blockID) :
    VoterInv c b {s with cache := {s.cache with lastCommittedBlockID := blockID}} := by
  have hinv := h.inv.step (c := c) (e := .commit blockID) trivial (if_pos hlt)
  refine ⟨hinv, ⟨h.sound.exec, h.sound.first⟩, h.queue, h.once.imp_right fun hretired => ?_⟩
  exact ⟨⟨hretired.1.1.trans (Nat.succ_le_succ hlt.le), hretired.1.2⟩, hretired.2⟩

/-- Saved messages are sent again. -/
theorem VoterInv.rebroadcast (h : VoterInv c b s) {l : List Message}
    (hl : ∀ m ∈ l, m ∈ s.known) : VoterInv c b {s with broadcasts := s.broadcasts ++ l} := by
  have hknown : ∀ m, m ∈ Voter.known {s with broadcasts := s.broadcasts ++ l} → m ∈ s.known := by
    intro m hm
    rcases List.mem_append.mp hm with hsent | hsaved
    · exact (List.mem_append.mp hsent).elim (List.mem_append_left _) (hl m)
    · exact List.mem_append_right _ hsaved
  refine ⟨h.inv, h.sound, h.queue, h.once.imp (fun hcurrent m hm => hcurrent m (hknown m hm))
    (.imp_right (·.mono fun m hm _ => hknown m hm))⟩

theorem VoterInv.restart (h : VoterInv c b s) (hquiet : NoneVoted b .restart s)
    (hstep : voterStep c .restart s = some s') : VoterInv c b s' := by
  have hfresh : VoterInv c b
      {s with up := true, cache := .start c s.cache.lastCommittedBlockID, msgCounter := 0} := by
    refine ⟨.start c _, .start _, nofun, ?_⟩
    by_cases hold : b + MAX_ACTIVE_CONSENSUSES ≤ s.cache.lastCommittedBlockID + 1
    · exact .inr ⟨⟨hold, nofun⟩, h.unequivocal⟩
    · exact .inl fun m hm haux hb => absurd hb (hquiet (Nat.lt_of_not_le hold) m hm haux)
  dsimp only [voterStep] at hstep
  split_ifs at hstep
  split at hstep
  next =>
    cases hstep
    exact hfresh
  next proposals hvector =>
    cases hstep
    have hagain := (hfresh.rebroadcast (l := s.getMessages (s.cache.lastCommittedBlockID + 1))
      fun m hm => Voter.mem_known_of_getMessages (s := s) hm).startConsensus hvector
    unfold Voter.startConsensus at hagain ⊢
    dsimp only at hagain ⊢
    split_ifs at hagain ⊢ <;> exact hagain

theorem VoterInv.step (h : VoterInv c b s) {e : VoterEvent} (hquiet : NoneVoted b e s)
    (htimely : InTime e s) (hstep : voterStep c e s = some s') : VoterInv c b s' := by
  cases e with
  | tryStart blockID proposals =>
    dsimp only [voterStep] at hstep
    split_ifs at hstep
    split at hstep
    next =>
      cases hstep
      exact h
    next hnone =>
      cases hstep
      exact (h.saveVector hnone).startConsensus (Function.update_self ..)
  | receive me =>
    dsimp only [voterStep] at hstep
    split_ifs at hstep with hguard
    cases hstep
    exact h.receive hguard.2
  | process =>
    dsimp only [voterStep] at hstep
    split_ifs at hstep
    cases hstep
    refine h.worked htimely rfl (Voter.proposalVectorDB_foldl_saveMsg _ s) fun m hm => ?_
    rcases List.mem_append.mp hm with hsent | hsaved
    · exact (List.mem_append.mp hsent).imp_left (List.mem_append_left _)
    · exact (Voter.mem_saved_of_foldl_saveMsg hsaved).imp_left (List.mem_append_right _)
  | commit blockID =>
    dsimp only [voterStep] at hstep
    split_ifs at hstep with hguard
    cases hstep
    exact h.commit hguard.2
  | rebroadcast =>
    dsimp only [voterStep] at hstep
    split_ifs at hstep
    cases hstep
    exact h.rebroadcast fun m hm => Voter.mem_known_of_getMessages hm
  | crash saved sent =>
    dsimp only [voterStep] at hstep
    split_ifs at hstep
    cases hstep
    refine h.worked htimely rfl (Voter.proposalVectorDB_foldl_saveMsg _ s) fun m hm => ?_
    rcases List.mem_append.mp hm with hsent | hsaved
    · exact (List.mem_append.mp hsent).imp (List.mem_append_left _) List.mem_of_mem_take
    · exact (Voter.mem_saved_of_foldl_saveMsg hsaved).imp (List.mem_append_right _)
        List.mem_of_mem_take
  | restart => exact h.restart hquiet hstep

/-- The AUX messages that a node broadcasts for a round of an instance carry one value, if
it is not started again after the first of them while the block can be voted on, and if no
task is so late that its instance may be forgotten. -/
theorem aux_value_unique {events : List VoterEvent} (hrun : (voter c).run events = some s)
    (hkeeps : (voter c).Keeps (fun e s => NoneVoted b e s ∧ InTime e s) (.start c) events)
    {m m' : Message} (hm : m ∈ s.broadcasts) (hm' : m' ∈ s.broadcasts) (hb : m.blockID = b)
    (hkey : m'.key = m.key) {r : ℕ} (haux : m.isAUX r) (haux' : m'.isAUX r) :
    m.value = m'.value := by
  have hinv : VoterInv c b s :=
    Machine.run_invariant_of_keeps hrun hkeeps voterInv_start
      fun _ _ _ h hcond hstep => h.step hcond.1 hcond.2 hstep
  exact hinv.unequivocal m (List.mem_append_left _ hm) m' (List.mem_append_left _ hm') hb hkey r
    haux haux'

end Lifetime

instance decidableNoneVoted (b : ℕ) : ∀ e s, Decidable (NoneVoted b e s)
  | .restart, s => inferInstanceAs (Decidable (_ → ∀ m ∈ s.known, _))
  | .tryStart .., _ | .receive _, _ | .process, _ | .commit _, _ | .rebroadcast, _
  | .crash .., _ => inferInstanceAs (Decidable True)

instance decidableInTime : ∀ e s, Decidable (InTime e s)
  | .process, s | .crash .., s =>
    inferInstanceAs (Decidable (InstanceCache.Timely .process s.cache))
  | .tryStart .., _ | .receive _, _ | .commit _, _ | .rebroadcast, _
  | .restart, _ => inferInstanceAs (Decidable True)

instance (m : Message) (r : ℕ) : Decidable (m.isAUX r) :=
  inferInstanceAs (Decidable (_ ∧ _))

/-! ### Node 1 of four -/

/-- The node proposes true for every instance of block 1. -/
def proposesTrue : List VoterEvent := [.tryStart 1 fun _ => true, .process]

/-- Node `i` sends its vote for `firstKey`. -/
def votes (i : SchainIndex) (b : Bool) : List VoterEvent :=
  [.receive ⟨.network, ⟨.bvBroadcast, 1, 1, 0, Value.ofBool b, none⟩, i⟩, .process]

/-- The node goes down between two tasks, starts, and proposes again. -/
def startsAgain : List VoterEvent := [.crash 0 0, .restart, .process]

/-- A restart before the first AUX message. -/
theorem aux_value_unique_plainNode : ∃ s m, (voter (plainNode 4 1)).run
      (proposesTrue ++ votes 2 true ++ startsAgain ++ votes 2 true ++ votes 3 true) = some s ∧
    m ∈ s.broadcasts ∧ m.isAUX 0 ∧ m.key = firstKey ∧
    ∀ m' ∈ s.broadcasts, m'.key = firstKey → m'.isAUX 0 → m.value = m'.value := by
  obtain ⟨s, hrun, hsome⟩ : ∃ s, (voter (plainNode 4 1)).run
      (proposesTrue ++ votes 2 true ++ startsAgain ++ votes 2 true ++ votes 3 true) = some s ∧
      ∃ m ∈ s.broadcasts, m.isAUX 0 ∧ m.key = firstKey :=
    Machine.exists_run (by decide +kernel)
  obtain ⟨m, hm, haux, hkey⟩ := hsome
  refine ⟨s, m, hrun, hm, haux, hkey, fun m' hm' hkey' haux' => ?_⟩
  exact aux_value_unique (b := 1) hrun (by decide +kernel) hm hm'
    (congrArg ProtocolKey.blockID hkey) (hkey'.trans hkey.symm) haux haux'

/-- True has its quorum first, and after the restart false. -/
theorem aux_values_differ : ∃ s, (voter (plainNode 4 1)).run
      (proposesTrue ++ votes 2 true ++ votes 3 true ++ startsAgain ++
        votes 2 false ++ votes 3 false ++ votes 4 false) = some s ∧
    ∃ m ∈ s.broadcasts, ∃ m' ∈ s.broadcasts, m.key = firstKey ∧ m'.key = firstKey ∧
      m.isAUX 0 ∧ m'.isAUX 0 ∧ m.value = 1 ∧ m'.value = 0 :=
  Machine.exists_run (by decide +kernel)

end SkaleConsensus.BinConsensus
