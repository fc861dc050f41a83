import SkaleConsensus.BinConsensus.Orderly
import SkaleConsensus.BinConsensus.Safety
import SkaleConsensus.Library.LruCache

/-! The instances a node remembers.

The instances of a proposer are in a cache of ten blocks, twice the number of blocks
whose messages `postDeferOrDrop` lets in. `getChild` makes an instance for a block that
it does not find there. While only such blocks are asked for, the cache forgets none of
them (`LruCache.Sliding`), and a key has one instance (`one_instance`).

But a message waits in the queue of the message thread while blocks are committed, and
`routeAndProcessMessage` takes messages of two blocks more. Until then ten other blocks
may have been asked for. The message then goes to a second instance, which knows nothing
of what the first one sent, and votes again (`second_instance_votes`). -/
namespace SkaleConsensus.BinConsensus
open Library Relation

/-! ### Instances keep their key -/

variable {c : Schain}

theorem Move.key {me : MessageEnvelope} {V : Value → Prop} {x y : Exec} (h : Move c me V x y) :
    y.inst.key = x.inst.key := by
  cases h <;> rfl

theorem Moves.key {me : MessageEnvelope} {V : Value → Prop} {x y : Exec} (h : Moves c me V x y) :
    y.inst.key = x.inst.key := by
  induction h with
  | refl => rfl
  | tail _ hmove ih => exact hmove.key.trans ih

theorem Orderly.key_handle {x : Exec} (h : Orderly x) (me : MessageEnvelope) :
    (BinConsensus.handle c x me).inst.key = x.inst.key :=
  Moves.key (processMessage_sound (V := Meant me) (fun _ => .inl) (.inr rfl) h.binary).moves

/-! ### The caches -/

/-- What the message thread finds in its queue. -/
inductive Task where
  | proposal (blockID : ℕ) (proposals : SchainIndex → Bool)
  | message (me : MessageEnvelope)

def Task.blockID : Task → ℕ
  | .proposal b _ => b
  | .message me => me.message.blockID

/-- All that a task hands to instances is allowed. -/
def Task.All (c : Schain) (Allowed : MessageEnvelope → Prop) :
    Task → Prop
  | .proposal b proposals => ∀ i, Allowed (proposalEnvelope c.schainIndex ⟨b, i⟩ (proposals i))
  | .message me => Allowed me

theorem Task.all_true (task : Task) :
    task.All c fun _ => True := by
  cases task with
  | proposal _ _ => exact fun _ => trivial
  | message _ => trivial

structure Instance where
  exec : Exec
  /-- Recorded: the messages it was handed. -/
  processed : List MessageEnvelope

structure InstanceCache where
  lastCommittedBlockID : ℕ
  /-- The cache of each proposer, with the number of an instance under a block id. -/
  children : SchainIndex → LruCache ℕ ℕ MAX_CONSENSUS_HISTORY
  /-- Every instance that was made, the forgotten ones too. -/
  instances : ℕ → Instance
  made : ℕ
  messageQueue : List Task
  /-- Recorded: what the instances broadcast, in this order. -/
  sent : List Message

namespace InstanceCache

def key (s : InstanceCache) (p : ℕ) : ProtocolKey := (s.instances p).exec.inst.key

/-- The constructor of `BlockConsensusAgent`: an instance of the current block for every
proposer. -/
def start (c : Schain) (last : ℕ) : InstanceCache where
  lastCommittedBlockID := last
  children i := if 0 < i ∧ i ≤ c.nodeCount then LruCache.empty.put (last + 1) (i - 1) else .empty
  instances p := ⟨.start ⟨last + 1, p + 1⟩, []⟩
  made := c.nodeCount
  messageQueue := []
  sent := []

def setCache (s : InstanceCache) (i : SchainIndex) (cache : LruCache ℕ ℕ MAX_CONSENSUS_HISTORY) :
    InstanceCache :=
  {s with children := Function.update s.children i cache}

/-- A new instance of a key, with the next number. -/
def make (s : InstanceCache) (K : ProtocolKey) : InstanceCache :=
  {s with
    instances := Function.update s.instances s.made ⟨.start K, []⟩
    made := s.made + 1}

def hand (s : InstanceCache) (c : Schain) (p : ℕ) (me : MessageEnvelope) : InstanceCache :=
  let old := (s.instances p).exec
  let new := handle c old me
  {s with
    instances := Function.update s.instances p ⟨new, (s.instances p).processed ++ [me]⟩
    sent := s.sent ++ new.sent.drop old.sent.length}

section Code
variable (c : Schain)

/-- Nothing is returned when an argument check throws, here or in the constructor of the
instance. -/
def getChild (K : ProtocolKey) (s : InstanceCache) : Option ℕ × InstanceCache :=
  if 0 < K.blockProposerIndex ∧ K.blockProposerIndex ≤ c.nodeCount then
    let cache := s.children K.blockProposerIndex
    if cache.contains K.blockID = true then
      (cache.get? K.blockID, s.setCache K.blockProposerIndex (cache.touch K.blockID))
    else if K.blockID = 0 then (none, s)
    else
      let added := cache.put K.blockID s.made
      (added.get? K.blockID, (s.make K).setCache K.blockProposerIndex (added.touch K.blockID))
  else (none, s)

/-- The instance is looked up for its round and looked up again for its decision. -/
def shouldPost (me : MessageEnvelope) (s : InstanceCache) : Bool × InstanceCache :=
  match getChild c me.message.key s with
  | (none, s') => (false, s')
  | (some p, s') =>
    let currentRound := (s'.instances p).exec.inst.currentRound
    if me.message.r > currentRound + 1 then (false, s')
    else if me.message.r = currentRound + 1 then
      match getChild c me.message.key s' with
      | (none, s'') => (false, s'')
      | (some q, s'') => ((s''.instances q).exec.inst.isDecided, s'')
    else (true, s')

/-- A message that is deferred comes again. -/
def postDeferOrDrop (me : MessageEnvelope) (s : InstanceCache) : InstanceCache :=
  if me.message.blockID > s.lastCommittedBlockID + 1 then s
  else if me.message.blockID + MAX_ACTIVE_CONSENSUSES ≤ s.lastCommittedBlockID + 1 then s
  else match shouldPost c me s with
    | (false, s') => s'
    | (true, s') =>
      if me.message.blockID = 0 then s'
      else {s' with messageQueue := s'.messageQueue ++ [.message me]}

/-- `getChild` and `processMessage`, and whether both returned. -/
def deliver (me : MessageEnvelope) (s : InstanceCache) : Bool × InstanceCache :=
  match getChild c me.message.key s with
  | (none, s') => (false, s')
  | (some p, s') =>
    let old := (s'.instances p).exec
    let handed := s'.hand c p me
    -- an instance that decides looks itself up, in `addDecideToGlobalHistory`
    (returns (processMessage c me) old,
      if old.inst.isDecided = (handle c old me).inst.isDecided then handed
      else (getChild c me.message.key handed).2)

def startConsensusProposal (blockID : ℕ) (proposals : SchainIndex → Bool) :
    List SchainIndex → InstanceCache → InstanceCache
  | [], s => s
  | i :: rest, s =>
    match deliver c (proposalEnvelope c.schainIndex ⟨blockID, i⟩ (proposals i)) s with
    | (true, s') => startConsensusProposal blockID proposals rest s'
    | (false, s') => s'

def routeAndProcessMessage (task : Task) (s : InstanceCache) : InstanceCache :=
  if task.blockID = 0 ∨ s.lastCommittedBlockID + 1 < task.blockID then s
  else if task.blockID + MAX_ACTIVE_CONSENSUSES < s.lastCommittedBlockID then s
  else match task with
    | .proposal blockID proposals =>
      startConsensusProposal c blockID proposals (List.range' 1 c.nodeCount) s
    | .message me => (deliver c me s).2

inductive Event where
  /-- A message of the network, new or deferred before. -/
  | receive (me : MessageEnvelope)
  /-- The message thread takes the next task. -/
  | process
  /-- A block is committed, the next one or, after a catchup, a later one. -/
  | commit (blockID : ℕ)
  | startConsensus (proposals : SchainIndex → Bool)

def step : Event → InstanceCache → Option InstanceCache
  | .receive me, s => if me.origin = .network then some (postDeferOrDrop c me s) else none
  | .process, s =>
    match s.messageQueue with
    | [] => none
    | task :: rest => some (routeAndProcessMessage c task {s with messageQueue := rest})
  | .commit blockID, s =>
    if s.lastCommittedBlockID < blockID then some {s with lastCommittedBlockID := blockID}
    else none
  | .startConsensus proposals, s =>
    some {s with messageQueue :=
      s.messageQueue ++ [.proposal (s.lastCommittedBlockID + 1) proposals]}

def machine (last : ℕ) : Machine InstanceCache Event := ⟨start c last, step c⟩

end Code

/-! ### One instance -/

/-- How often a round of a key was sent as AUX, by whatever instance. -/
def auxCount (s : InstanceCache) (K : ProtocolKey) (r : ℕ) : ℕ :=
  ∑ p ∈ Finset.range s.made with s.key p = K, (s.instances p).exec.auxCount r

structure OneInstance (s : InstanceCache) : Prop where
  /-- An instance whose key got another one later had not processed anything. -/
  single : ∀ p q, p < q → q < s.made → s.key p = s.key q → (s.instances p).processed = []
  auxOnce : ∀ K r, s.auxCount K r ≤ 1

/-- A task comes to the message thread while `postDeferOrDrop` would still take its block, or
so late that it is ignored. -/
def Timely : Event → InstanceCache → Prop
  | .process, s => ∀ task ∈ s.messageQueue.head?,
      s.lastCommittedBlockID + 1 < task.blockID + MAX_ACTIVE_CONSENSUSES ∨
        task.blockID + MAX_ACTIVE_CONSENSUSES < s.lastCommittedBlockID
  | _, _ => True

instance decidableTimely : ∀ e s, Decidable (Timely e s)
  | .process, s => inferInstanceAs (Decidable (∀ task ∈ s.messageQueue.head?, _))
  | .receive _, _ => inferInstanceAs (Decidable True)
  | .commit _, _ => inferInstanceAs (Decidable True)
  | .startConsensus _, _ => inferInstanceAs (Decidable True)

/-! ### What is kept -/

/-- Blocks in the window are found in the caches, and no key has two instances. -/
structure Inv (s : InstanceCache) : Prop where
  sliding : ∀ i, (s.children i).Sliding (s.lastCommittedBlockID + 1) MAX_ACTIVE_CONSENSUSES
  found : ∀ i b p, (s.children i).get? b = some p → p < s.made ∧ s.key p = ⟨b, i⟩
  kept : ∀ p, p < s.made →
    s.lastCommittedBlockID + 1 < (s.key p).blockID + MAX_ACTIVE_CONSENSUSES →
    (s.children (s.key p).blockProposerIndex).get? (s.key p).blockID = some p
  alone : ∀ p q, p < s.made → q < s.made → s.key p = s.key q → p = q
  orderly : ∀ p, Orderly (s.instances p).exec

/-- A block whose messages are let in. -/
def InRange (s : InstanceCache) (blockID : ℕ) : Prop :=
  blockID ≤ s.lastCommittedBlockID + 1 ∧
    s.lastCommittedBlockID + 1 < blockID + MAX_ACTIVE_CONSENSUSES

/-- The cache is twice as large as the window. -/
theorem window_fits : 2 * MAX_ACTIVE_CONSENSUSES ≤ MAX_CONSENSUS_HISTORY + 1 := by decide

variable {c : Schain} {s : InstanceCache} {K : ProtocolKey} {me : MessageEnvelope} {p : ℕ}
  {cache : LruCache ℕ ℕ MAX_CONSENSUS_HISTORY}

theorem Inv.start (c : Schain) (last : ℕ) : Inv (start c last) where
  sliding i := by
    show (if _ then _ else _ : LruCache ℕ ℕ MAX_CONSENSUS_HISTORY).Sliding _ _
    split_ifs
    · exact (LruCache.sliding_empty _ _).put window_fits le_rfl
        (Nat.lt_add_of_pos_right (by decide)) _
    · exact LruCache.sliding_empty _ _
  found i b p hfound := by
    change (if 0 < i ∧ i ≤ c.nodeCount then _ else _ :
      LruCache ℕ ℕ MAX_CONSENSUS_HISTORY).get? b = _ at hfound
    split_ifs at hfound with hi
    · rcases LruCache.of_get?_put hfound with ⟨rfl, rfl⟩ | ⟨-, hfound⟩
      · refine ⟨Nat.sub_one_lt_of_le hi.1 hi.2, ?_⟩
        show ProtocolKey.mk (last + 1) (i - 1 + 1) = _
        rw [Nat.sub_add_cancel hi.1]
      · cases hfound
    · cases hfound
  kept p hp _ := by
    show (if 0 < p + 1 ∧ p + 1 ≤ c.nodeCount then _ else _ :
      LruCache ℕ ℕ MAX_CONSENSUS_HISTORY).get? (last + 1) = _
    rw [if_pos ⟨Nat.succ_pos p, hp⟩]
    exact LruCache.get?_put_self _ _ _ (by decide)
  alone p q _ _ hkey := Nat.succ_injective (congrArg ProtocolKey.blockProposerIndex hkey)
  orderly p := .start _

/-- A cache is put in order; what is found in it stays. -/
theorem Inv.setCache (h : Inv s) (i : SchainIndex)
    (hsliding : cache.Sliding (s.lastCommittedBlockID + 1) MAX_ACTIVE_CONSENSUSES)
    (hget : ∀ b, cache.get? b = (s.children i).get? b) : Inv (s.setCache i cache) := by
  have hsame : ∀ j b, ((s.setCache i cache).children j).get? b = (s.children j).get? b := by
    intro j b
    show (Function.update s.children i cache j).get? b = _
    rcases eq_or_ne j i with rfl | hne
    · rw [Function.update_self, hget]
    · rw [Function.update_of_ne hne]
  exact {h with
    sliding := (Function.forall_update_iff s.children fun _ cache => cache.Sliding _ _).mpr
      ⟨hsliding, fun j _ => h.sliding j⟩
    found := fun j b p hfound => h.found j b p (hsame j b ▸ hfound)
    kept := fun p hp hwindow => (hsame _ _).trans (h.kept p hp hwindow)}

theorem key_make_self (s : InstanceCache) (K : ProtocolKey) : (s.make K).key s.made = K := by
  show (Function.update s.instances s.made _ s.made).exec.inst.key = K
  rw [Function.update_self]
  rfl

theorem key_make_of_lt (hp : p < s.made) (K : ProtocolKey) :
    (s.make K).key p = s.key p := by
  show (Function.update s.instances s.made _ p).exec.inst.key = _
  rw [Function.update_of_ne hp.ne]
  rfl

theorem Inv.make (h : Inv s) (hrange : s.InRange K.blockID)
    (hnew : (s.children K.blockProposerIndex).get? K.blockID = none)
    (hsliding : cache.Sliding (s.lastCommittedBlockID + 1) MAX_ACTIVE_CONSENSUSES)
    (hget : ∀ b, cache.get? b = ((s.children K.blockProposerIndex).put K.blockID s.made).get? b) :
    Inv ((s.make K).setCache K.blockProposerIndex cache) := by
  have hcache : ∀ j, ((s.make K).setCache K.blockProposerIndex cache).children j =
      Function.update s.children K.blockProposerIndex cache j := fun _ => rfl
  have hother : ∀ p < s.made, s.key p ≠ K := by
    rintro p hp rfl
    rw [h.kept p hp hrange.2] at hnew
    cases hnew
  refine {
    sliding := (Function.forall_update_iff s.children fun _ cache => cache.Sliding _ _).mpr
      ⟨hsliding, fun j _ => h.sliding j⟩
    found := fun j b p hfound => ?_
    kept := fun p hp hwindow => ?_
    alone := fun p q hp hq hkey => ?_
    orderly := (Function.forall_update_iff s.instances fun _ x => Orderly x.exec).mpr
      ⟨.start K, fun p _ => h.orderly p⟩}
  · have hold : (s.children j).get? b = some p →
        p < s.made + 1 ∧ (s.make K).key p = ⟨b, j⟩ := by
      intro hfound
      obtain ⟨hp, hkey⟩ := h.found j b p hfound
      exact ⟨Nat.lt_succ_of_lt hp, (key_make_of_lt hp K).trans hkey⟩
    rw [hcache] at hfound
    rcases eq_or_ne j K.blockProposerIndex with rfl | hne
    · rw [Function.update_self, hget] at hfound
      rcases LruCache.of_get?_put hfound with ⟨rfl, rfl⟩ | ⟨-, hfound⟩
      · exact ⟨Nat.lt_succ_self _, key_make_self s K⟩
      · exact hold hfound
    · rw [Function.update_of_ne hne] at hfound
      exact hold hfound
  · change (((s.make K).setCache K.blockProposerIndex cache).children
      ((s.make K).key p).blockProposerIndex).get? ((s.make K).key p).blockID = some p
    change _ < ((s.make K).key p).blockID + _ at hwindow
    rw [hcache]
    rcases Nat.lt_succ_iff_lt_or_eq.mp hp with hp | rfl
    · rw [key_make_of_lt hp] at hwindow ⊢
      have hkept := h.kept p hp hwindow
      by_cases hproposer : (s.key p).blockProposerIndex = K.blockProposerIndex
      · have hblock : (s.key p).blockID ≠ K.blockID := fun hblock =>
          hother p hp (congrArg₂ ProtocolKey.mk hblock hproposer)
        rw [hproposer] at hkept ⊢
        rw [Function.update_self, hget]
        exact (h.sliding _).get?_put window_fits hrange.1 hrange.2 _ hblock hwindow hkept
      · rwa [Function.update_of_ne hproposer]
    · rw [key_make_self, Function.update_self, hget]
      exact LruCache.get?_put_self _ _ _ (by decide)
  · change (s.make K).key p = (s.make K).key q at hkey
    rcases Nat.lt_succ_iff_lt_or_eq.mp hp with hp | rfl <;>
      rcases Nat.lt_succ_iff_lt_or_eq.mp hq with hq | rfl
    · rw [key_make_of_lt hp, key_make_of_lt hq] at hkey
      exact h.alone p q hp hq hkey
    · rw [key_make_of_lt hp, key_make_self] at hkey
      exact absurd hkey (hother p hp)
    · rw [key_make_of_lt hq, key_make_self] at hkey
      exact absurd hkey.symm (hother q hq)
    · rfl

/-- What `getChild` leaves alone. -/
theorem getChild_frame (s : InstanceCache) (K : ProtocolKey) :
    (getChild c K s).2.lastCommittedBlockID = s.lastCommittedBlockID ∧
      (getChild c K s).2.messageQueue = s.messageQueue ∧ (getChild c K s).2.sent = s.sent := by
  unfold getChild
  dsimp only
  split_ifs <;> exact ⟨rfl, rfl, rfl⟩

theorem get?_of_getChild (h : (getChild c K s).1 = some p) :
    ((getChild c K s).2.children K.blockProposerIndex).get? K.blockID = some p := by
  unfold getChild at h ⊢
  dsimp only at h ⊢
  split_ifs at h ⊢
  all_goals
    rw [setCache]
    dsimp only
    rw [Function.update_self, LruCache.get?_touch]
    exact h

theorem Inv.getChild (h : Inv s) (hrange : s.InRange K.blockID) :
    Inv (getChild c K s).2 := by
  have hsliding := h.sliding K.blockProposerIndex
  unfold InstanceCache.getChild
  dsimp only
  split_ifs with hindex hcontains
  · exact h.setCache _ (hsliding.touch window_fits hrange.1 hrange.2) (LruCache.get?_touch _ _)
  · exact h
  · have hnew : (s.children K.blockProposerIndex).get? K.blockID = none := by
      simpa [LruCache.contains] using hcontains
    have hput := hsliding.put window_fits hrange.1 hrange.2 s.made
    exact h.make hrange hnew (hput.touch window_fits hrange.1 hrange.2) (LruCache.get?_touch _ _)
  · exact h

theorem key_hand (h : Orderly (s.instances p).exec) (me : MessageEnvelope) (q : ℕ) :
    (s.hand c p me).key q = s.key q := by
  show (Function.update s.instances p _ q).exec.inst.key = _
  rcases eq_or_ne q p with rfl | hne
  · rw [Function.update_self]
    exact h.key_handle me
  · rw [Function.update_of_ne hne]
    rfl

theorem Inv.hand (h : Inv s) (p : ℕ) (me : MessageEnvelope) : Inv (s.hand c p me) := by
  have hkey := key_hand (c := c) (h.orderly p) me
  refine {h with
    found := fun i b q hfound => ?_
    kept := fun q hq hwindow => ?_
    alone := fun q q' hq hq' heq => ?_
    orderly := (Function.forall_update_iff s.instances fun _ x => Orderly x.exec).mpr
      ⟨(h.orderly p).handle me, fun q _ => h.orderly q⟩}
  · rw [hkey]
    exact h.found i b q hfound
  · rw [hkey] at hwindow ⊢
    exact h.kept q hq hwindow
  · rw [hkey, hkey] at heq
    exact h.alone q q' hq hq' heq

/-! ### Messages -/

/-- Kept while instances of block `b` are looked up and handed messages that are allowed. -/
structure KeptBy (c : Schain) (b : ℕ) (Allowed : MessageEnvelope → Prop)
    (P : InstanceCache → Prop) : Prop where
  getChild : ∀ s K, P s → K.blockID = b → P (getChild c K s).2
  hand : ∀ s p me, P s → Allowed me → me.message.blockID = b →
    (s.children me.message.blockProposerIndex).get? me.message.blockID = some p →
    P (s.hand c p me)

section KeptBy
variable {b : ℕ} {Allowed : MessageEnvelope → Prop} {P : InstanceCache → Prop}

theorem KeptBy.deliver (h : KeptBy c b Allowed P) (hs : P s) (hme : Allowed me)
    (hb : me.message.blockID = b) : P (deliver c me s).2 := by
  have hchild := h.getChild s me.message.key hs hb
  have hfound := fun p => get?_of_getChild (c := c) (s := s) (K := me.message.key) (p := p)
  unfold InstanceCache.deliver
  cases hget : InstanceCache.getChild c me.message.key s with
  | mk found s' =>
    rw [hget] at hchild hfound
    cases found with
    | none => exact hchild
    | some p =>
      have hhanded := h.hand s' p me hchild hme hb (hfound p rfl)
      dsimp only
      split_ifs
      · exact hhanded
      · exact h.getChild _ _ hhanded hb

theorem KeptBy.startConsensusProposal (h : KeptBy c b Allowed P)
    {proposals : SchainIndex → Bool} (htask : (Task.proposal b proposals).All c Allowed)
    (hs : P s) (indices : List SchainIndex) :
    P (startConsensusProposal c b proposals indices s) := by
  induction indices generalizing s with
  | nil => exact hs
  | cons i rest ih =>
    have hfirst := h.deliver hs (htask i) rfl
    unfold InstanceCache.startConsensusProposal
    cases hdeliver :
        InstanceCache.deliver c (proposalEnvelope c.schainIndex ⟨b, i⟩ (proposals i)) s with
    | mk returned s' =>
      rw [hdeliver] at hfirst
      cases returned with
      | false => exact hfirst
      | true => exact ih hfirst

/-- The instances are left alone unless the block is one that is let in. -/
theorem routeAndProcessMessage_kept {task : Task} (htask : task.All c Allowed) (hs : P s)
    (h : task.blockID ≤ s.lastCommittedBlockID + 1 →
      s.lastCommittedBlockID ≤ task.blockID + MAX_ACTIVE_CONSENSUSES →
      KeptBy c task.blockID Allowed P) : P (routeAndProcessMessage c task s) := by
  unfold routeAndProcessMessage
  split_ifs with hfuture hold
  · exact hs
  · exact hs
  · have hkept := h (Nat.le_of_not_lt fun hlt => hfuture (.inr hlt)) (Nat.le_of_not_lt hold)
    cases task with
    | proposal blockID proposals => exact hkept.startConsensusProposal htask hs _
    | message me => exact hkept.deliver hs htask rfl

theorem KeptBy.shouldPost (h : KeptBy c me.message.blockID Allowed P) (hs : P s) :
    P (shouldPost c me s).2 := by
  have hfirst := h.getChild s me.message.key hs rfl
  unfold InstanceCache.shouldPost
  cases hget : InstanceCache.getChild c me.message.key s with
  | mk found s' =>
    rw [hget] at hfirst
    cases found with
    | none => exact hfirst
    | some p =>
      have hsecond := h.getChild s' me.message.key hfirst rfl
      dsimp only
      split_ifs
      · exact hfirst
      · cases hget' : InstanceCache.getChild c me.message.key s' with
        | mk found' s'' =>
          rw [hget'] at hsecond
          cases found' <;> exact hsecond
      · exact hfirst

theorem postDeferOrDrop_kept {Q : InstanceCache → Prop} (hs : P s)
    (h : s.InRange me.message.blockID → KeptBy c me.message.blockID Allowed P)
    (hleft : ∀ t, P t → Q t)
    (hposted : ∀ t, s.InRange me.message.blockID → P t →
      Q {t with messageQueue := t.messageQueue ++ [.message me]}) :
    Q (postDeferOrDrop c me s) := by
  unfold postDeferOrDrop
  by_cases hfuture : me.message.blockID > s.lastCommittedBlockID + 1
  · rw [if_pos hfuture]
    exact hleft s hs
  by_cases hold : me.message.blockID + MAX_ACTIVE_CONSENSUSES ≤ s.lastCommittedBlockID + 1
  · rw [if_neg hfuture, if_pos hold]
    exact hleft s hs
  rw [if_neg hfuture, if_neg hold]
  have hrange : s.InRange me.message.blockID :=
    ⟨Nat.le_of_not_lt hfuture, Nat.lt_of_not_le hold⟩
  have hpost := (h hrange).shouldPost hs
  cases hasked : InstanceCache.shouldPost c me s with
  | mk post s' =>
    rw [hasked] at hpost
    cases post with
    | false => exact hleft s' hpost
    | true =>
      dsimp only
      split_ifs
      · exact hleft s' hpost
      · exact hposted s' hrange hpost

end KeptBy

theorem keptBy_inv {b : ℕ} (hrange : s.InRange b) :
    KeptBy c b (fun _ => True)
      fun t => Inv t ∧ t.lastCommittedBlockID = s.lastCommittedBlockID where
  getChild t K h hb := by
    refine ⟨h.1.getChild ?_, (getChild_frame t K).1.trans h.2⟩
    unfold InRange
    rwa [h.2, hb]
  hand t p me h _ _ _ := ⟨h.1.hand p me, h.2⟩

theorem Inv.step {e : Event} {s' : InstanceCache} (h : Inv s) (htimely : Timely e s)
    (hstep : step c e s = some s') : Inv s' := by
  cases e with
  | receive me =>
    simp only [InstanceCache.step] at hstep
    split_ifs at hstep
    cases hstep
    exact postDeferOrDrop_kept ⟨h, rfl⟩ keptBy_inv (fun _ ht => ht.1) fun _ _ ht => {ht.1 with}
  | process =>
    simp only [InstanceCache.step] at hstep
    cases hqueue : s.messageQueue with
    | nil =>
      rw [hqueue] at hstep
      cases hstep
    | cons task rest =>
      rw [hqueue] at hstep
      cases hstep
      have hs : Inv {s with messageQueue := rest} := {h with}
      refine (routeAndProcessMessage_kept (P := fun t => Inv t ∧ t.lastCommittedBlockID =
        s.lastCommittedBlockID) task.all_true ⟨hs, rfl⟩ fun hnext hold => ?_).1
      exact keptBy_inv (s := s) ⟨hnext, (htimely task (by rw [hqueue]; rfl)).resolve_right
        (Nat.not_lt.mpr hold)⟩
  | commit blockID =>
    simp only [InstanceCache.step] at hstep
    split_ifs at hstep with hlt
    cases hstep
    have hle : s.lastCommittedBlockID + 1 ≤ blockID + 1 := Nat.succ_le_succ hlt.le
    exact {h with
      sliding := fun i => (h.sliding i).mono hle
      kept := fun p hp hwindow => h.kept p hp (hle.trans_lt hwindow)}
  | startConsensus proposals =>
    cases hstep
    exact {h with}

theorem Inv.oneInstance (h : Inv s) : OneInstance s where
  single p q hlt hq hkey := absurd (h.alone p q (hlt.trans hq) hq hkey) hlt.ne
  auxOnce K r := by
    have hcard : ((Finset.range s.made).filter (s.key · = K)).card ≤ 1 := by
      refine Finset.card_le_one.mpr fun p hp q hq => ?_
      obtain ⟨hp, hpK⟩ := Finset.mem_filter.mp hp
      obtain ⟨hq, hqK⟩ := Finset.mem_filter.mp hq
      exact h.alone p q (Finset.mem_range.mp hp) (Finset.mem_range.mp hq) (hpK.trans hqK.symm)
    calc s.auxCount K r
        ≤ ((Finset.range s.made).filter (s.key · = K)).card • 1 :=
          Finset.sum_le_card_nsmul _ _ 1 fun p _ => (h.orderly p).auxOnce r
      _ ≤ 1 := by simpa using hcard

/-- A vote of node `i` in the first round on proposer 1 of a block. -/
def firstRoundVote (blockID : ℕ) (v : Value) (i : SchainIndex) : Event :=
  .receive ⟨.network, ⟨.bvBroadcast, blockID, 1, 0, v, none⟩, i⟩

/-- The last vote for block 5 arrives after block 8 was committed. -/
def inTimeRun : List Event :=
  [firstRoundVote 5 1 2, .process, firstRoundVote 5 1 3, .process, .commit 5,
    firstRoundVote 6 1 2, .process, .commit 8, firstRoundVote 9 1 2, .process,
    firstRoundVote 5 1 4, .process]

/-- Three votes for false wait in the queue. Meanwhile messages of the four blocks before are
let in, and then, as the node catches up to block 10, messages of the six blocks after. -/
def lateRun : List Event :=
  [firstRoundVote 5 1 2, firstRoundVote 5 1 3, firstRoundVote 5 1 4, .process, .process, .process,
    firstRoundVote 5 0 2, firstRoundVote 5 0 3, firstRoundVote 5 0 4,
    firstRoundVote 4 1 2, firstRoundVote 3 1 2, firstRoundVote 2 1 2, firstRoundVote 1 1 2,
    .commit 6, firstRoundVote 6 1 2, firstRoundVote 7 1 2,
    .commit 10, firstRoundVote 8 1 2, firstRoundVote 9 1 2, firstRoundVote 10 1 2,
    firstRoundVote 11 1 2, .process, .process, .process]

end InstanceCache

end SkaleConsensus.BinConsensus
