import SkaleConsensus.Db.CacheLevelDB
import SkaleConsensus.Library.Collect
import SkaleConsensus.Library.Execution
import SkaleConsensus.Library.LruCache
import SkaleConsensus.Library.Program

/-! The shares of block signatures.

`checkAndSaveShareInMemory` collects the shares for a block and a proposer and merges them
when there are `getRequiredSigners()`; the block is marked then, and later shares for it are
ignored. Counters, shares and marks are entries of one cache of 256 texts, which forgets what
was not used for longest.

The cache is not divided between the signers. A share for a proposer index nobody has heard
of takes two entries, so that 128 such shares of one signer make it forget the shares of the
others (`third_share_returns_null`). `answered_of_fits` is what holds as long as the calls
since the first one for a block use no more than 256 keys. -/
namespace SkaleConsensus.Db
open Library

/-- The keys are written as the numbers that `createKey` prints; it is injective
(`createKey_injective`). -/
abbrev SigShares := LruCache (List ℕ) Bytes 256

/-- What is asked of the crypto manager: enough valid shares merge to a valid signature. -/
structure ShareCrypto (Sig : Type) (totalSigners : ℕ) where
  getConsensusHash : (proposer blockId : ℕ) → Hash
  verifyThresholdSigShare : SchainIndex → Bytes → Hash → Bool
  hasNodeInfo : SchainIndex → Bool
  /-- `createSigShareSet`, `addSigShare` for each, and `mergeSignature`. -/
  mergeSignature : (blockId : ℕ) → List (SchainIndex × Bytes) → Except String Sig
  verifyThresholdSig : Sig → Hash → Bool
  nodeInfo : ∀ index, 1 ≤ index → index ≤ totalSigners → hasNodeInfo index = true
  merges : ∀ blockId hash (set : OrderedMap SchainIndex Bytes),
    set.size = getRequiredSigners totalSigners →
    (∀ e ∈ set.entries, verifyThresholdSigShare e.1 e.2 hash = true) →
    ∃ sig, mergeSignature blockId set.entries = .ok sig ∧ verifyThresholdSig sig hash = true

/-- A `ThresholdSigShare` and the proposer it is passed for. -/
structure ShareCall where
  blockId : ℕ
  proposer : SchainIndex
  signerIndex : SchainIndex
  text : Bytes
deriving DecidableEq, Repr

namespace BlockSigShareDB

section Code
variable (totalSigners : ℕ)

/-- The loop that collects the set: an entry that is there is moved to the front. -/
def collectShares (blockId proposerIndex : ℕ) :
    List SchainIndex → OrderedMap SchainIndex Bytes → SigShares →
      OrderedMap SchainIndex Bytes × SigShares
  | [], enoughSet, sigShares => (enoughSet, sigShares)
  | i :: rest, enoughSet, sigShares =>
    let (enoughSet, sigShares) := match sigShares.get? [blockId, proposerIndex, i] with
      | some entry => (enoughSet.assign i entry, sigShares.touch [blockId, proposerIndex, i])
      | none => (enoughSet, sigShares)
    if enoughSet.size = getRequiredSigners totalSigners then (enoughSet, sigShares)
    else collectShares blockId proposerIndex rest enoughSet sigShares

/-- The counter, which is zero at first. `none` if it cannot be read. -/
def readCounter (blockId proposerIndex : ℕ) (sigShares : SigShares) : Option ℕ × SigShares :=
  match sigShares.get? [blockId, proposerIndex] with
  | some text => (stoull text, sigShares.touch [blockId, proposerIndex])
  | none => (some 0, sigShares.put [blockId, proposerIndex] (textBytes "0"))

def writeStringToSetInMemory (value : Bytes) (blockId : ℕ) (index proposerIndex : SchainIndex) :
    EStateM String SigShares (Option (OrderedMap SchainIndex Bytes)) := do
  checkArgument (decide (0 < index ∧ index ≤ totalSigners)) "_index > 0 && _index <= totalSigners"
  let sigShares ← get
  if sigShares.contains [blockId] then return none
  if sigShares.contains [blockId, proposerIndex, index] then return none
  match readCounter blockId proposerIndex sigShares with
  | (none, sigShares) =>
    set sigShares
    return none
  | (some count, sigShares) =>
    let sigShares := sigShares.put [blockId, proposerIndex] (decimalText (count + 1))
    let sigShares := sigShares.put [blockId, proposerIndex, index] value
    if count + 1 != getRequiredSigners totalSigners then
      set sigShares
      return none
    let (enoughSet, sigShares) := collectShares totalSigners blockId proposerIndex
      (List.range' 1 totalSigners) .empty sigShares
    set sigShares
    checkState (enoughSet.size == getRequiredSigners totalSigners)
      "enoughSet->size() == requiredSigners"
    set (sigShares.put [blockId] (textBytes "1"))
    return some enoughSet

variable {totalSigners} {Sig : Type} (crypto : ShareCrypto Sig totalSigners)

/-- The rest of `checkAndSaveShareInMemory`, when the set is complete. -/
def mergeShares (blockId : ℕ) (hash : Hash) (enoughSet : OrderedMap SchainIndex Bytes) :
    EStateM String SigShares (Option Sig) := do
  checkState (enoughSet.entries.all fun item => crypto.hasNodeInfo item.1) "nodeInfo"
  checkState (enoughSet.entries.all fun item => !item.2.isEmpty) "!item.second.empty()"
  match crypto.mergeSignature blockId enoughSet.entries with
  | .error e => throw e
  | .ok signature =>
    checkState (crypto.verifyThresholdSig signature hash) "verifyThresholdSig"
    return some signature

def checkAndSaveShareInMemory (c : ShareCall) : EStateM String SigShares (Option Sig) := do
  let hash := crypto.getConsensusHash c.proposer c.blockId
  checkState (crypto.verifyThresholdSigShare c.signerIndex c.text hash) "verifyThresholdSigShare"
  checkState (!c.text.isEmpty) "!sigShareString.empty()"
  match ← writeStringToSetInMemory totalSigners c.text c.blockId c.signerIndex c.proposer with
  | none => return none
  | some enoughSet => mergeShares crypto c.blockId hash enoughSet

end Code

end BlockSigShareDB

/-! ### What was passed -/

/-- The shares for a block and a proposer, the first of each signer. Calls stand latest
first. -/
def shares (b p : ℕ) : List ShareCall → List (SchainIndex × Bytes)
  | [] => []
  | c :: earlier =>
    if c.blockId = b ∧ c.proposer = p ∧ ((shares b p earlier).lookup c.signerIndex).isNone then
      shares b p earlier ++ [(c.signerIndex, c.text)]
    else shares b p earlier

section History
variable (totalSigners : ℕ)

/-- The shares of `getRequiredSigners()` signers were passed for some proposer. -/
def completed (b : ℕ) : List ShareCall → Bool
  | [] => false
  | c :: earlier => completed b earlier || (c.blockId == b &&
      decide (getRequiredSigners totalSigners ≤ (shares b c.proposer (c :: earlier)).length))

/-- The call completes the first set of its block. -/
def Completes (earlier : List ShareCall) (c : ShareCall) : Prop :=
  completed totalSigners c.blockId earlier = false ∧
    completed totalSigners c.blockId (c :: earlier) = true

instance (earlier : List ShareCall) (c : ShareCall) :
    Decidable (Completes totalSigners earlier c) :=
  inferInstanceAs (Decidable (_ ∧ _))

/-- The keys that a call uses: the mark, the counter and the share; if it completes the set,
all shares of the set. -/
def usedKeys (earlier : List ShareCall) (c : ShareCall) : List (List ℕ) :=
  let read :=
    if Completes totalSigners earlier c then
      (shares c.blockId c.proposer (c :: earlier)).map Prod.fst
    else [c.signerIndex]
  [c.blockId] :: [c.blockId, c.proposer] :: read.map fun i => [c.blockId, c.proposer, i]

/-- The keys that were used since the first call for a block. -/
def used (b : ℕ) : List ShareCall → Finset (List ℕ)
  | [] => ∅
  | c :: earlier =>
    if c.blockId = b ∨ ∃ c' ∈ earlier, c'.blockId = b then
      used b earlier ∪ (usedKeys totalSigners earlier c).toFinset
    else ∅

/-- At every call, no more keys were used since the first call for its block than the cache
has entries. -/
def Fits : List ShareCall → Prop
  | [] => True
  | c :: earlier => (used totalSigners c.blockId (c :: earlier)).card ≤ 256 ∧ Fits earlier

variable {totalSigners} {Sig : Type} (crypto : ShareCrypto Sig totalSigners)

structure ShareCall.Valid (c : ShareCall) : Prop where
  signer : 1 ≤ c.signerIndex ∧ c.signerIndex ≤ totalSigners
  text : c.text ≠ []
  verified : crypto.verifyThresholdSigShare c.signerIndex c.text
    (crypto.getConsensusHash c.proposer c.blockId) = true

/-- What is expected of a call: once a set of the block was complete, it returns nothing; the
share that completes the first one returns what its shares merge to. -/
def Answers (earlier : List ShareCall) (c : ShareCall) (result : Option Sig) : Prop :=
  if Completes totalSigners earlier c then
    ∃ entries signature, result = some signature ∧
      entries.Perm (shares c.blockId c.proposer (c :: earlier)) ∧
      entries.length = getRequiredSigners totalSigners ∧
      crypto.mergeSignature c.blockId entries = .ok signature
  else result = none

/-- Calls and what they returned, latest first. -/
def Answered : List (ShareCall × Option Sig) → Prop
  | [] => True
  | (c, result) :: earlier => Answers crypto (earlier.map Prod.fst) c result ∧ Answered earlier

end History

structure ShareRun (Sig : Type) where
  sigShares : SigShares
  answers : List (ShareCall × Option Sig)

/-- A call that throws is not a step. -/
def shareStore {totalSigners : ℕ} {Sig : Type} (crypto : ShareCrypto Sig totalSigners) :
    Machine (ShareRun Sig) ShareCall where
  initial := ⟨.empty, []⟩
  step c s :=
    match (BlockSigShareDB.checkAndSaveShareInMemory crypto c).run s.sigShares with
    | .ok result sigShares => some ⟨sigShares, (c, result) :: s.answers⟩
    | .error _ _ => none

/-! ### The history -/

section History
variable {totalSigners b p : ℕ} {earlier : List ShareCall} {c : ShareCall}

theorem shares_of_block_ne (h : c.blockId ≠ b) : shares b p (c :: earlier) = shares b p earlier :=
  if_neg fun hc => h hc.1

theorem completed_of_block_ne (h : c.blockId ≠ b) :
    completed totalSigners b (c :: earlier) = completed totalSigners b earlier := by
  simp [completed, h]

theorem nodup_shares (b p : ℕ) (history : List ShareCall) :
    ((shares b p history).map Prod.fst).Nodup := by
  induction history with
  | nil => exact List.nodup_nil
  | cons c earlier ih =>
    rw [shares]
    split_ifs with h
    · rw [List.map_append]
      refine List.nodup_append.mpr ⟨ih, List.nodup_singleton _, fun i hi j hj heq => ?_⟩
      obtain ⟨e, he, rfl⟩ := List.mem_map.mp hi
      have hlookup := (lookup_eq_some_iff_mem ih).mpr he
      rw [heq, List.mem_singleton.mp hj] at hlookup
      simp [hlookup] at h
    · exact ih

theorem exists_call_of_mem_shares {history : List ShareCall} {e : SchainIndex × Bytes}
    (h : e ∈ shares b p history) :
    ∃ c ∈ history, c.blockId = b ∧ c.proposer = p ∧ e = (c.signerIndex, c.text) := by
  induction history with
  | nil => cases h
  | cons c earlier ih =>
    rw [shares] at h
    split_ifs at h with hc
    · rcases List.mem_append.mp h with h | h
      · obtain ⟨c', hc', hrest⟩ := ih h
        exact ⟨c', List.mem_cons_of_mem _ hc', hrest⟩
      · exact ⟨c, List.mem_cons_self, hc.1, hc.2.1, List.mem_singleton.mp h⟩
    · obtain ⟨c', hc', hrest⟩ := ih h
      exact ⟨c', List.mem_cons_of_mem _ hc', hrest⟩

theorem shares_eq_nil_of_not_called (h : ¬ ∃ c ∈ earlier, c.blockId = b) (p : ℕ) :
    shares b p earlier = [] := by
  rw [List.eq_nil_iff_forall_not_mem]
  intro e he
  obtain ⟨c, hc, hblock, -⟩ := exists_call_of_mem_shares he
  exact h ⟨c, hc, hblock⟩

theorem used_eq_empty_of_not_called (h : ¬ ∃ c ∈ earlier, c.blockId = b) :
    used totalSigners b earlier = ∅ := by
  cases earlier with
  | nil => rfl
  | cons c rest =>
    refine if_neg fun hcalled => h ?_
    rcases hcalled with hc | ⟨c', hc', hblock⟩
    · exact ⟨c, List.mem_cons_self, hc⟩
    · exact ⟨c', List.mem_cons_of_mem _ hc', hblock⟩

theorem completed_eq_false_of_not_called (h : ¬ ∃ c ∈ earlier, c.blockId = b) :
    completed totalSigners b earlier = false := by
  induction earlier with
  | nil => rfl
  | cons c rest ih =>
    rw [completed_of_block_ne fun hc => h ⟨c, List.mem_cons_self, hc⟩]
    exact ih fun ⟨c', hc', hblock⟩ => h ⟨c', List.mem_cons_of_mem _ hc', hblock⟩

/-- Before a set of the block is complete, each misses a share. -/
theorem length_shares_lt {history : List ShareCall}
    (h : completed totalSigners b history = false) (hrequired : 0 < getRequiredSigners totalSigners)
    (p : ℕ) : (shares b p history).length < getRequiredSigners totalSigners := by
  induction history with
  | nil => exact hrequired
  | cons c earlier ih =>
    obtain ⟨hearlier, hnow⟩ := Bool.or_eq_false_iff.mp h
    by_cases hc : c.blockId = b ∧ c.proposer = p
    · obtain ⟨rfl, rfl⟩ := hc
      simpa using hnow
    · rw [shares, if_neg fun hnew => hc ⟨hnew.1, hnew.2.1⟩]
      exact ih hearlier

/-- The share of the call's signer that is there already. -/
abbrev ShareCall.own (c : ShareCall) (earlier : List ShareCall) : Option Bytes :=
  (shares c.blockId c.proposer earlier).lookup c.signerIndex

theorem shares_of_new (h : c.own earlier = none) :
    shares c.blockId c.proposer (c :: earlier) =
      shares c.blockId c.proposer earlier ++ [(c.signerIndex, c.text)] :=
  if_pos ⟨rfl, rfl, Option.isNone_iff_eq_none.mpr h⟩

theorem shares_of_proposer_ne (h : c.proposer ≠ p) :
    shares b p (c :: earlier) = shares b p earlier :=
  if_neg fun hc => h hc.2.1

theorem shares_of_old (h : (c.own earlier).isSome = true)
    (p : ℕ) : shares c.blockId p (c :: earlier) = shares c.blockId p earlier := by
  refine if_neg fun hc => ?_
  rw [← hc.2.1] at hc
  simp [Option.isNone_iff_eq_none.mp hc.2.2] at h

theorem completed_of_old (h : (c.own earlier).isSome = true)
    (hrequired : 0 < getRequiredSigners totalSigners) :
    completed totalSigners c.blockId (c :: earlier) = completed totalSigners c.blockId earlier := by
  rw [completed, shares_of_old h]
  cases hcompleted : completed totalSigners c.blockId earlier with
  | true => rfl
  | false => simpa using length_shares_lt hcompleted hrequired c.proposer

theorem completed_of_new (h : c.own earlier = none)
    (hopen : completed totalSigners c.blockId earlier = false)
    (hrequired : 0 < getRequiredSigners totalSigners) :
    completed totalSigners c.blockId (c :: earlier) =
      decide ((shares c.blockId c.proposer earlier).length + 1 =
        getRequiredSigners totalSigners) := by
  have hlt := length_shares_lt hopen hrequired c.proposer
  rw [completed, hopen, shares_of_new h]
  simp only [beq_self_eq_true, Bool.true_and, Bool.false_or, List.length_append,
    List.length_singleton]
  exact decide_eq_decide.mpr ⟨fun hle => by omega, fun heq => heq.ge⟩

theorem mem_used_of_mem_usedKeys (h : c.blockId = b ∨ ∃ c' ∈ earlier, c'.blockId = b) {k : List ℕ}
    (hk : k ∈ usedKeys totalSigners earlier c) : k ∈ used totalSigners b (c :: earlier) := by
  rw [used, if_pos h]
  exact Finset.mem_union_right _ (List.mem_toFinset.mpr hk)

theorem used_subset (h : c.blockId = b ∨ ∃ c' ∈ earlier, c'.blockId = b) :
    used totalSigners b earlier ⊆ used totalSigners b (c :: earlier) := by
  rw [used, if_pos h]
  exact Finset.subset_union_left

theorem head?_of_mem_usedKeys {k : List ℕ} (hk : k ∈ usedKeys totalSigners earlier c) :
    k.head? = some c.blockId := by
  rcases List.mem_cons.mp hk with rfl | hk
  · rfl
  · rcases List.mem_cons.mp hk with rfl | hk
    · rfl
    · obtain ⟨i, -, rfl⟩ := List.mem_map.mp hk
      rfl

end History

/-! ### What the cache has of a block -/

section Holds
variable {totalSigners b : ℕ} {earlier : List ShareCall} {c : ShareCall} {s s' : SigShares}

/-- The entries of a block are those of its history, and stand in front of all that was not
used since its first call. -/
structure Holds (totalSigners b : ℕ) (history : List ShareCall) (s : SigShares) : Prop where
  mark : s.get? [b] = if completed totalSigners b history then some (textBytes "1") else none
  counter : completed totalSigners b history = false → ∀ p, s.get? [b, p] =
    if shares b p history = [] then none else some (decimalText (shares b p history).length)
  share : completed totalSigners b history = false →
    ∀ p i, s.get? [b, p, i] = (shares b p history).lookup i
  fronts : s.Fronts (used totalSigners b history) fun k => k.head? = some b

theorem get?_eq_none_of_forall {k : List ℕ} (h : ∀ e ∈ s.entries, ¬ e.1.head? = some b)
    (hk : k.head? = some b) : s.get? k = none := by
  rw [Option.eq_none_iff_forall_ne_some]
  exact fun a ha => h _ (LruCache.get?_eq_some.mp ha) hk

theorem holds_of_not_called (h : ¬ ∃ c ∈ earlier, c.blockId = b)
    (hnone : ∀ e ∈ s.entries, ¬ e.1.head? = some b) : Holds totalSigners b earlier s where
  mark := by
    rw [get?_eq_none_of_forall hnone rfl, completed_eq_false_of_not_called h]
    rfl
  counter _ p := by
    rw [get?_eq_none_of_forall hnone rfl, shares_eq_nil_of_not_called h]
    rfl
  share _ p i := by
    rw [get?_eq_none_of_forall hnone rfl, shares_eq_nil_of_not_called h]
    rfl
  fronts := LruCache.fronts_of_forall_not hnone

/-- A call for another block. -/
theorem Holds.frame (h : Holds totalSigners b earlier s) (hb : c.blockId ≠ b)
    (huses : s.Uses (usedKeys totalSigners earlier c) s')
    (hroom : (used totalSigners b (c :: earlier)).card ≤ 256) :
    Holds totalSigners b (c :: earlier) s' := by
  have hhead : ∀ k ∈ usedKeys totalSigners earlier c, ¬ k.head? = some b := fun k hk heq =>
    hb (Option.some.inj ((head?_of_mem_usedKeys hk).symm.trans heq))
  by_cases hcalled : ∃ c' ∈ earlier, c'.blockId = b
  · have hsub : used totalSigners b earlier ⊆ used totalSigners b (c :: earlier) :=
      used_subset (.inr hcalled)
    have hkeys : ∀ k ∈ usedKeys totalSigners earlier c, k ∈ used totalSigners b (c :: earlier) :=
      fun k hk => mem_used_of_mem_usedKeys (.inr hcalled) hk
    have hsame : ∀ k : List ℕ, k.head? = some b → s'.get? k = s.get? k := fun k hk =>
      huses.get?_eq (h.fronts.mono hsub) hkeys hroom (fun hmem => hhead k hmem hk) hk
    refine ⟨?_, fun hopen p => ?_, fun hopen p i => ?_,
      huses.fronts (h.fronts.mono hsub) hkeys hroom⟩
    · rw [hsame _ rfl, completed_of_block_ne hb, h.mark]
    · rw [completed_of_block_ne hb] at hopen
      rw [hsame _ rfl, shares_of_block_ne hb, h.counter hopen]
    · rw [completed_of_block_ne hb] at hopen
      rw [hsame _ rfl, shares_of_block_ne hb, h.share hopen]
  · have hfronts := h.fronts
    rw [used_eq_empty_of_not_called hcalled] at hfronts
    refine holds_of_not_called (fun ⟨c', hc', hblock⟩ => ?_) fun e he => ?_
    · rcases List.mem_cons.mp hc' with rfl | hc'
      · exact hb hblock
      · exact hcalled ⟨c', hc', hblock⟩
    · rcases huses.mem_entries he with hkey | he
      · exact hhead _ hkey
      · exact hfronts.not_wanted e he

end Holds

/-! ### A call for the block -/

section Call
variable {totalSigners : ℕ} {earlier : List ShareCall} {c : ShareCall} {s s' : SigShares}

variable (totalSigners) in
/-- The loop reads the shares and only changes the order of the cache. -/
theorem collectShares_eq (b p : ℕ) (indexes : List SchainIndex)
    (set : OrderedMap SchainIndex Bytes) (s : SigShares) :
    (BlockSigShareDB.collectShares totalSigners b p indexes set s).1 =
      collect (fun i => s.get? [b, p, i]) (getRequiredSigners totalSigners) indexes set ∧
    (∀ k, (BlockSigShareDB.collectShares totalSigners b p indexes set s).2.get? k = s.get? k) ∧
    ∀ keys s₀, (∀ i, (s.get? [b, p, i]).isSome → [b, p, i] ∈ keys) → LruCache.Uses keys s₀ s →
      LruCache.Uses keys s₀ (BlockSigShareDB.collectShares totalSigners b p indexes set s).2 := by
  induction indexes generalizing set s with
  | nil => exact ⟨rfl, fun _ => rfl, fun _ _ _ h => h⟩
  | cons i rest ih =>
    rw [BlockSigShareDB.collectShares, collect]
    cases hread : s.get? [b, p, i] with
    | none =>
      dsimp only
      split_ifs
      · exact ⟨rfl, fun _ => rfl, fun _ _ _ h => h⟩
      · exact ih set s
    | some entry =>
      dsimp only
      have htouch := ih (set.assign i entry) (s.touch [b, p, i])
      simp only [LruCache.get?_touch] at htouch
      split_ifs
      · exact ⟨rfl, fun k => s.get?_touch _ k, fun keys s₀ hkeys h =>
          h.touch (hkeys i (by simp [hread]))⟩
      · exact ⟨htouch.1, htouch.2.1, fun keys s₀ hkeys h =>
          htouch.2.2 keys s₀ hkeys (h.touch (hkeys i (by simp [hread])))⟩

/-- What a call does that brings a new share of a block without a complete set. -/
def stored (c : ShareCall) (count : ℕ) (s : SigShares) : SigShares :=
  ((BlockSigShareDB.readCounter c.blockId c.proposer s).2.put [c.blockId, c.proposer]
    (decimalText (count + 1))).put [c.blockId, c.proposer, c.signerIndex] c.text

theorem uses_stored (count : ℕ) :
    s.Uses [[c.blockId, c.proposer], [c.blockId, c.proposer, c.signerIndex]]
      (stored c count s) := by
  refine .put (.put ?_ List.mem_cons_self _) (List.mem_cons_of_mem _ List.mem_cons_self) _
  unfold BlockSigShareDB.readCounter
  cases s.get? [c.blockId, c.proposer] with
  | some text => exact .touch .refl List.mem_cons_self
  | none => exact .put .refl List.mem_cons_self _

theorem get?_stored {used : Finset (List ℕ)}
    (hfronts : s.Fronts used fun k => k.head? = some c.blockId) (hroom : used.card ≤ 256)
    (hcounter : [c.blockId, c.proposer] ∈ used)
    (hshare : [c.blockId, c.proposer, c.signerIndex] ∈ used) (count : ℕ) {k : List ℕ}
    (hk : k.head? = some c.blockId) :
    (stored c count s).get? k =
      if k = [c.blockId, c.proposer, c.signerIndex] then some c.text
      else if k = [c.blockId, c.proposer] then some (decimalText (count + 1)) else s.get? k := by
  have hread : (BlockSigShareDB.readCounter c.blockId c.proposer s).2.Fronts used
        (fun k => k.head? = some c.blockId) ∧
      (k ≠ [c.blockId, c.proposer] →
        (BlockSigShareDB.readCounter c.blockId c.proposer s).2.get? k = s.get? k) := by
    unfold BlockSigShareDB.readCounter
    cases s.get? [c.blockId, c.proposer] with
    | some text => exact ⟨hfronts.touch hcounter hroom, fun _ => s.get?_touch _ k⟩
    | none =>
      exact ⟨hfronts.put hcounter hroom _, fun hne => hfronts.get?_put hcounter hroom _ hne hk⟩
  rw [stored, (hread.1.put hcounter hroom _).get?_put_eq hshare hroom _ hk,
    hread.1.get?_put_eq hcounter hroom _ hk]
  split_ifs with hentry hcounter'
  · rfl
  · rfl
  · exact hread.2 hcounter'

/-- What a call for one of the signers does: the check of the arguments passes. -/
theorem run_writeStringToSetInMemory
    (hsigner : 1 ≤ c.signerIndex ∧ c.signerIndex ≤ totalSigners) (s : SigShares) :
    (BlockSigShareDB.writeStringToSetInMemory totalSigners c.text c.blockId c.signerIndex
      c.proposer).run s =
      if s.contains [c.blockId] then .ok none s
      else if s.contains [c.blockId, c.proposer, c.signerIndex] then .ok none s
      else match (BlockSigShareDB.readCounter c.blockId c.proposer s).1 with
        | none => .ok none (BlockSigShareDB.readCounter c.blockId c.proposer s).2
        | some count =>
          if count + 1 != getRequiredSigners totalSigners then .ok none (stored c count s)
          else
            let found := BlockSigShareDB.collectShares totalSigners c.blockId c.proposer
              (List.range' 1 totalSigners) .empty (stored c count s)
            (do
              checkState (found.1.size == getRequiredSigners totalSigners)
                "enoughSet->size() == requiredSigners"
              set (found.2.put [c.blockId] (textBytes "1"))
              return some found.1 : EStateM String SigShares _).run found.2 := by
  have hargument : decide (0 < c.signerIndex ∧ c.signerIndex ≤ totalSigners) = true :=
    decide_eq_true hsigner
  unfold BlockSigShareDB.writeStringToSetInMemory
  rw [hargument]
  show EStateM.run (if s.contains [c.blockId] = true then
    (pure none : EStateM String SigShares _) else _) s = _
  cases s.contains [c.blockId] with
  | true => rfl
  | false =>
    simp only [Bool.false_eq_true, if_false]
    cases s.contains [c.blockId, c.proposer, c.signerIndex] with
    | true => rfl
    | false =>
      simp only [Bool.false_eq_true, if_false]
      unfold stored
      cases BlockSigShareDB.readCounter c.blockId c.proposer s with
      | mk count s' =>
        cases count with
        | none => rfl
        | some count =>
          simp only
          cases hcount : count + 1 != getRequiredSigners totalSigners <;> rfl

theorem counter_mem_usedKeys (totalSigners : ℕ) (earlier : List ShareCall) (c : ShareCall) :
    [c.blockId, c.proposer] ∈ usedKeys totalSigners earlier c :=
  List.mem_cons_of_mem _ List.mem_cons_self

theorem share_mem_usedKeys (h : c.own earlier = none) :
    [c.blockId, c.proposer, c.signerIndex] ∈ usedKeys totalSigners earlier c := by
  refine List.mem_cons_of_mem _ (List.mem_cons_of_mem _ (List.mem_map.mpr ⟨c.signerIndex, ?_, rfl⟩))
  split_ifs
  · rw [shares_of_new h]
    simp
  · exact List.mem_singleton_self _

theorem uses_stored_usedKeys (h : c.own earlier = none) (count : ℕ) :
    s.Uses (usedKeys totalSigners earlier c) (stored c count s) := by
  refine (uses_stored count).mono fun k hk => ?_
  rcases List.mem_cons.mp hk with rfl | hk
  · exact counter_mem_usedKeys totalSigners earlier c
  · rw [List.mem_singleton.mp hk]
    exact share_mem_usedKeys h

section Own
variable (h : Holds totalSigners c.blockId earlier s)
  (hroom : (used totalSigners c.blockId (c :: earlier)).card ≤ 256)
include h

theorem Holds.fronts_cons :
    s.Fronts (used totalSigners c.blockId (c :: earlier)) fun k => k.head? = some c.blockId :=
  h.fronts.mono (used_subset (.inl rfl))

/-- A call that finds the mark or its own share changes nothing. -/
theorem Holds.ignored (hcompleted : completed totalSigners c.blockId (c :: earlier) =
      completed totalSigners c.blockId earlier)
    (hshares : completed totalSigners c.blockId earlier = false →
      ∀ p, shares c.blockId p (c :: earlier) = shares c.blockId p earlier) :
    Holds totalSigners c.blockId (c :: earlier) s := by
  refine ⟨?_, fun hopen p => ?_, fun hopen p i => ?_, h.fronts_cons⟩
  · rw [hcompleted, h.mark]
  · rw [hcompleted] at hopen
    rw [hshares hopen, h.counter hopen]
  · rw [hcompleted] at hopen
    rw [hshares hopen, h.share hopen]

theorem Holds.readCounter (hn : totalSigners < 2 ^ 64) (hpos : 0 < totalSigners)
    (hopen : completed totalSigners c.blockId earlier = false) :
    (BlockSigShareDB.readCounter c.blockId c.proposer s).1 =
      some (shares c.blockId c.proposer earlier).length := by
  have hlt := length_shares_lt hopen (getRequiredSigners_pos hpos) c.proposer
  have hle := getRequiredSigners_le totalSigners
  unfold BlockSigShareDB.readCounter
  rw [h.counter hopen]
  split_ifs with hnil
  · rw [hnil]
    rfl
  · exact stoull_decimalText (by omega)

include hroom

/-- What is found after a new share was stored. -/
theorem Holds.get?_stored (hnew : c.own earlier = none)
    (count : ℕ) {k : List ℕ} (hk : k.head? = some c.blockId) :
    (stored c count s).get? k =
      if k = [c.blockId, c.proposer, c.signerIndex] then some c.text
      else if k = [c.blockId, c.proposer] then some (decimalText (count + 1)) else s.get? k :=
  Db.get?_stored h.fronts_cons hroom
    (mem_used_of_mem_usedKeys (.inl rfl) (counter_mem_usedKeys totalSigners earlier c))
    (mem_used_of_mem_usedKeys (.inl rfl) (share_mem_usedKeys hnew)) count hk

theorem Holds.share_stored (hnew : c.own earlier = none)
    (hopen : completed totalSigners c.blockId earlier = false) (count p i : ℕ) :
    (stored c count s).get? [c.blockId, p, i] = (shares c.blockId p (c :: earlier)).lookup i := by
  rw [h.get?_stored hroom hnew count rfl,
    if_neg (by simp : [c.blockId, p, i] ≠ [c.blockId, c.proposer]), h.share hopen]
  by_cases hp : p = c.proposer
  · subst hp
    rw [shares_of_new hnew, List.lookup_append]
    by_cases hi : i = c.signerIndex
    · subst hi
      simp [hnew]
    · have hbeq : (i == c.signerIndex) = false := by simpa using hi
      simp [hi, List.lookup_cons, hbeq]
  · rw [shares_of_proposer_ne (Ne.symm hp)]
    simp [hp]

theorem Holds.stored (hnew : c.own earlier = none)
    (hopen : completed totalSigners c.blockId (c :: earlier) = false) :
    Holds totalSigners c.blockId (c :: earlier)
      (stored c (shares c.blockId c.proposer earlier).length s) := by
  have hbefore : completed totalSigners c.blockId earlier = false :=
    (Bool.or_eq_false_iff.mp hopen).1
  refine ⟨?_, fun _ p => ?_, fun _ p i => h.share_stored hroom hnew hbefore _ p i, ?_⟩
  · rw [h.get?_stored hroom hnew _ rfl, h.mark, hopen, hbefore]
    simp
  · rw [h.get?_stored hroom hnew _ rfl, h.counter hbefore]
    by_cases hp : p = c.proposer
    · subst hp
      rw [shares_of_new hnew]
      simp
    · rw [shares_of_proposer_ne (Ne.symm hp)]
      simp [hp]
  · exact (uses_stored_usedKeys hnew _).fronts h.fronts_cons
      (fun k hk => mem_used_of_mem_usedKeys (.inl rfl) hk) hroom

/-- The call that completes the set reads it, and marks the block. -/
theorem Holds.complete
    (hn : ∀ c' ∈ c :: earlier, c'.signerIndex ≤ totalSigners ∧ 1 ≤ c'.signerIndex)
    (hnew : c.own earlier = none)
    (hcompletes : Completes totalSigners earlier c) {count : ℕ}
    (hlength : (shares c.blockId c.proposer (c :: earlier)).length =
      getRequiredSigners totalSigners)
    {found : OrderedMap SchainIndex Bytes × SigShares}
    (hfound : BlockSigShareDB.collectShares totalSigners c.blockId c.proposer
      (List.range' 1 totalSigners) .empty (Db.stored c count s) = found) :
    found.1.entries.Perm (shares c.blockId c.proposer (c :: earlier)) ∧
      s.Uses (usedKeys totalSigners earlier c) (found.2.put [c.blockId] (textBytes "1")) ∧
      Holds totalSigners c.blockId (c :: earlier) (found.2.put [c.blockId] (textBytes "1")) := by
  obtain ⟨hset, hget, huses⟩ := collectShares_eq totalSigners c.blockId c.proposer
    (List.range' 1 totalSigners) .empty (Db.stored c count s)
  rw [hfound] at hset hget huses
  have hshare := h.share_stored hroom hnew hcompletes.1 count c.proposer
  have hmark : [c.blockId] ∈ usedKeys totalSigners earlier c := List.mem_cons_self
  have hall : s.Uses (usedKeys totalSigners earlier c) found.2 := by
    refine huses _ s (fun i hi => ?_) (uses_stored_usedKeys hnew count)
    rw [hshare i] at hi
    obtain ⟨text, htext⟩ := Option.isSome_iff_exists.mp hi
    have hmem := (lookup_eq_some_iff_mem (nodup_shares ..)).mp htext
    refine List.mem_cons_of_mem _ (List.mem_cons_of_mem _ (List.mem_map.mpr ⟨i, ?_, rfl⟩))
    rw [if_pos hcompletes]
    exact List.mem_map.mpr ⟨_, hmem, rfl⟩
  have hfronts := hall.fronts h.fronts_cons
    (fun k hk => mem_used_of_mem_usedKeys (.inl rfl) hk) hroom
  have hmarkUsed := mem_used_of_mem_usedKeys (.inl rfl) hmark
  refine ⟨?_, hall.put hmark _, ?_, fun hopen => ?_, fun hopen => ?_, ?_⟩
  · rw [hset]
    refine collect_perm (nodup_shares ..) hshare hlength fun e he => ?_
    obtain ⟨c', hc', -, -, rfl⟩ := exists_call_of_mem_shares he
    exact (hn c' hc').symm
  · rw [hfronts.get?_put_eq hmarkUsed hroom _ rfl, hcompletes.2]
    simp
  · rw [hcompletes.2] at hopen
    cases hopen
  · rw [hcompletes.2] at hopen
    cases hopen
  · exact hfronts.put hmarkUsed hroom _

/-- The step lemma for the block of the call. -/
theorem Holds.write (hn : totalSigners < 2 ^ 64)
    (hsigners : ∀ c' ∈ c :: earlier, c'.signerIndex ≤ totalSigners ∧ 1 ≤ c'.signerIndex) :
    ∃ result s', (BlockSigShareDB.writeStringToSetInMemory totalSigners c.text c.blockId
        c.signerIndex c.proposer).run s = .ok result s' ∧
      s.Uses (usedKeys totalSigners earlier c) s' ∧ Holds totalSigners c.blockId (c :: earlier) s' ∧
      if Completes totalSigners earlier c then ∃ set, result = some set ∧
        set.entries.Perm (shares c.blockId c.proposer (c :: earlier)) ∧
        set.size = getRequiredSigners totalSigners
      else result = none := by
  have hsigner := (hsigners c List.mem_cons_self).symm
  have hpos : 0 < totalSigners := hsigner.1.trans hsigner.2
  have hrequired := getRequiredSigners_pos hpos
  rw [run_writeStringToSetInMemory hsigner, LruCache.contains, LruCache.contains, h.mark]
  cases hbefore : completed totalSigners c.blockId earlier with
  | true =>
    have hafter : completed totalSigners c.blockId (c :: earlier) = true := by
      simp [completed, hbefore]
    refine ⟨none, s, rfl, .refl, h.ignored (hafter.trans hbefore.symm) (by simp [hbefore]), ?_⟩
    rw [if_neg fun hc : Completes totalSigners earlier c =>
      absurd (hc.1.symm.trans hbefore) (by decide)]
  | false =>
    rw [h.share hbefore]
    cases hlookup : (shares c.blockId c.proposer earlier).lookup c.signerIndex with
    | some text =>
      have hold : (c.own earlier).isSome = true := Option.isSome_iff_exists.mpr ⟨text, hlookup⟩
      have hafter := completed_of_old hold hrequired
      refine ⟨none, s, rfl, .refl, h.ignored hafter fun _ p => shares_of_old hold p, ?_⟩
      rw [if_neg fun hc : Completes totalSigners earlier c =>
        absurd ((hafter.trans hbefore).symm.trans hc.2) (by decide)]
    | none =>
      have hafter := completed_of_new hlookup hbefore hrequired
      have hlength : (shares c.blockId c.proposer (c :: earlier)).length =
          (shares c.blockId c.proposer earlier).length + 1 := by
        rw [shares_of_new hlookup, List.length_append]
        rfl
      simp only [Option.isSome_none, Bool.false_eq_true, if_false, h.readCounter hn hpos hbefore]
      by_cases hcount : (shares c.blockId c.proposer earlier).length + 1 =
          getRequiredSigners totalSigners
      · rw [decide_eq_true hcount] at hafter
        have hcompletes : Completes totalSigners earlier c := ⟨hbefore, hafter⟩
        obtain ⟨hperm, huses, hholds⟩ := h.complete hroom hsigners hlookup hcompletes
          (hlength.trans hcount) rfl
        have hsize := hperm.length_eq.trans (hlength.trans hcount)
        rw [if_neg (by simp [hcount])]
        refine ⟨_, _, run_checkState_bind_of_true (beq_iff_eq.mpr hsize) _ _ _, huses, hholds, ?_⟩
        rw [if_pos hcompletes]
        exact ⟨_, rfl, hperm, hsize⟩
      · rw [decide_eq_false hcount] at hafter
        rw [if_pos (by simpa using hcount)]
        refine ⟨none, _, rfl, uses_stored_usedKeys hlookup _, h.stored hroom hlookup hafter, ?_⟩
        rw [if_neg fun hc : Completes totalSigners earlier c =>
          absurd (hafter.symm.trans hc.2) (by decide)]

end Own

end Call

/-! ### Whole runs -/

section Run
variable {totalSigners : ℕ} {Sig : Type} {crypto : ShareCrypto Sig totalSigners}
  {earlier : List ShareCall} {c : ShareCall} {s : SigShares}

theorem mergeShares_run (hvalid : ∀ c' ∈ c :: earlier, c'.Valid crypto)
    {set : OrderedMap SchainIndex Bytes}
    (hperm : set.entries.Perm (shares c.blockId c.proposer (c :: earlier)))
    (hsize : set.size = getRequiredSigners totalSigners) (s : SigShares) :
    ∃ signature, crypto.mergeSignature c.blockId set.entries = .ok signature ∧
      (BlockSigShareDB.mergeShares crypto c.blockId (crypto.getConsensusHash c.proposer c.blockId)
        set).run s = .ok (some signature) s := by
  have hcall : ∀ e ∈ set.entries, ∃ c' : ShareCall, c'.Valid crypto ∧ c'.blockId = c.blockId ∧
      c'.proposer = c.proposer ∧ e = (c'.signerIndex, c'.text) := by
    intro e he
    obtain ⟨c', hc', hrest⟩ := exists_call_of_mem_shares (hperm.mem_iff.mp he)
    exact ⟨c', hvalid c' hc', hrest⟩
  obtain ⟨signature, hmerge, hverify⟩ := crypto.merges c.blockId
    (crypto.getConsensusHash c.proposer c.blockId) set hsize fun e he => by
      obtain ⟨c', hc', hblock, hproposer, rfl⟩ := hcall e he
      rw [← hblock, ← hproposer]
      exact hc'.verified
  have hnodes : (set.entries.all fun item => crypto.hasNodeInfo item.1) = true := by
    refine List.all_eq_true.mpr fun e he => ?_
    obtain ⟨c', hc', -, -, rfl⟩ := hcall e he
    exact crypto.nodeInfo _ hc'.signer.1 hc'.signer.2
  have htexts : (set.entries.all fun item => !item.2.isEmpty) = true := by
    refine List.all_eq_true.mpr fun e he => ?_
    obtain ⟨c', hc', -, -, rfl⟩ := hcall e he
    exact not_isEmpty hc'.text
  refine ⟨signature, hmerge, ?_⟩
  unfold BlockSigShareDB.mergeShares
  rw [run_checkState_bind_of_true hnodes, run_checkState_bind_of_true htexts, hmerge]
  exact run_checkState_bind_of_true hverify _ _ _

/-- What holds of every block for which not too many keys were used. -/
def HoldsAll (totalSigners : ℕ) (history : List ShareCall) (s : SigShares) : Prop :=
  ∀ b, (used totalSigners b history).card ≤ 256 → Holds totalSigners b history s

/-- A call of `checkAndSaveShareInMemory` returns what it should. -/
theorem HoldsAll.call (h : HoldsAll totalSigners earlier s) (hn : totalSigners < 2 ^ 64)
    (hvalid : ∀ c' ∈ c :: earlier, c'.Valid crypto)
    (hroom : (used totalSigners c.blockId (c :: earlier)).card ≤ 256) :
    ∃ result s', (BlockSigShareDB.checkAndSaveShareInMemory crypto c).run s = .ok result s' ∧
      HoldsAll totalSigners (c :: earlier) s' ∧ Answers crypto earlier c result := by
  have hbefore : ∀ b, (used totalSigners b (c :: earlier)).card ≤ 256 →
      (used totalSigners b earlier).card ≤ 256 := by
    intro b hb
    by_cases hcalled : c.blockId = b ∨ ∃ c' ∈ earlier, c'.blockId = b
    · exact (Finset.card_le_card (used_subset hcalled)).trans hb
    · rw [used_eq_empty_of_not_called fun hc => hcalled (.inr hc)]
      exact Nat.zero_le _
  have hc := hvalid c List.mem_cons_self
  obtain ⟨found, s', hrun, huses, hholds, hfound⟩ := (h _ (hbefore _ hroom)).write hroom hn
    fun c' hc' => (hvalid c' hc').signer.symm
  have hall : HoldsAll totalSigners (c :: earlier) s' := by
    intro b hb
    by_cases hsame : c.blockId = b
    · exact hsame ▸ hholds
    · exact (h b (hbefore b hb)).frame hsame huses hb
  have hcall : ∀ result, (match found with
        | none => pure none
        | some set => BlockSigShareDB.mergeShares crypto c.blockId
            (crypto.getConsensusHash c.proposer c.blockId) set :
          EStateM String SigShares (Option Sig)).run s' = .ok result s' →
      (BlockSigShareDB.checkAndSaveShareInMemory crypto c).run s = .ok result s' := by
    intro result hresult
    unfold BlockSigShareDB.checkAndSaveShareInMemory
    dsimp only
    rw [run_checkState_bind_of_true hc.verified, run_checkState_bind_of_true (not_isEmpty hc.text)]
    exact run_bind_eq_ok.mpr ⟨found, s', hrun, hresult⟩
  by_cases hcompletes : Completes totalSigners earlier c
  · rw [if_pos hcompletes] at hfound
    obtain ⟨set, rfl, hperm, hsize⟩ := hfound
    obtain ⟨signature, hmerge, hmerged⟩ := mergeShares_run hvalid hperm hsize s'
    refine ⟨some signature, s', hcall _ hmerged, hall, ?_⟩
    rw [Answers, if_pos hcompletes]
    exact ⟨set.entries, signature, rfl, hperm, hsize, hmerge⟩
  · rw [if_neg hcompletes] at hfound
    subst hfound
    refine ⟨none, s', hcall _ rfl, hall, ?_⟩
    rw [Answers, if_neg hcompletes]

theorem Fits.of_append {before after : List ShareCall} (h : Fits totalSigners (after ++ before)) :
    Fits totalSigners before := by
  induction after with
  | nil => exact h
  | cons c rest ih => exact ih h.2

/-- For every sequence of valid shares such that, at each call, the calls since the first one
for its block use at most 256 keys: no call throws, the one that completes the first set of a
block returns what exactly the shares of this set merge to, and all others return nothing. -/
theorem answered_of_fits (crypto : ShareCrypto Sig totalSigners) (hn : totalSigners < 2 ^ 64)
    (calls : List ShareCall) (hvalid : ∀ c ∈ calls, c.Valid crypto)
    (hfits : Fits totalSigners calls.reverse) :
    ∃ s, (shareStore crypto).run calls = some s ∧ s.answers.map Prod.fst = calls.reverse ∧
      Answered crypto s.answers := by
  have hrun : ∀ s : ShareRun Sig, HoldsAll totalSigners (s.answers.map Prod.fst) s.sigShares →
      Answered crypto s.answers → (∀ c ∈ s.answers.map Prod.fst, c.Valid crypto) →
      Fits totalSigners (calls.reverse ++ s.answers.map Prod.fst) →
      ∃ s', (shareStore crypto).runFrom s calls = some s' ∧
        s'.answers.map Prod.fst = calls.reverse ++ s.answers.map Prod.fst ∧
        Answered crypto s'.answers := by
    clear hfits
    induction calls with
    | nil => exact fun s _ hanswered _ _ => ⟨s, rfl, rfl, hanswered⟩
    | cons c rest ih =>
      intro s hholds hanswered hearlier hfits
      rw [List.reverse_cons, List.append_assoc] at hfits
      have hall : ∀ c' ∈ c :: s.answers.map Prod.fst, c'.Valid crypto := by
        intro c' hc'
        rcases List.mem_cons.mp hc' with rfl | hc'
        · exact hvalid _ List.mem_cons_self
        · exact hearlier c' hc'
      obtain ⟨result, s', hcall, hholds', hanswers⟩ := hholds.call hn hall (Fits.of_append hfits).1
      have hstep : (shareStore crypto).step c s = some ⟨s', (c, result) :: s.answers⟩ := by
        simp only [shareStore, hcall]
      obtain ⟨s'', hrest, hcalls, hanswered'⟩ := ih
        (fun c' hc' => hvalid c' (List.mem_cons_of_mem _ hc')) ⟨s', (c, result) :: s.answers⟩
        hholds' ⟨hanswers, hanswered⟩ hall hfits
      refine ⟨s'', by simp [Machine.runFrom, hstep, hrest], ?_, hanswered'⟩
      rw [hcalls, List.reverse_cons, List.append_assoc]
      rfl
  obtain ⟨s, hs, hcalls, hanswered⟩ := hrun (shareStore crypto).initial
    (fun b _ => holds_of_not_called (by simp [shareStore]) (by simp [shareStore, LruCache.empty]))
    trivial (by simp [shareStore]) (by simpa [shareStore] using hfits)
  exact ⟨s, hs, by simpa [shareStore] using hcalls, hanswered⟩

theorem calls_of_runFrom {s s' : ShareRun Sig} {calls : List ShareCall}
    (h : (shareStore crypto).runFrom s calls = some s') :
    s'.answers.map Prod.fst = calls.reverse ++ s.answers.map Prod.fst := by
  induction calls generalizing s with
  | nil =>
    cases h
    rfl
  | cons c rest ih =>
    simp only [Machine.runFrom, Option.bind_eq_some_iff] at h
    obtain ⟨mid, hstep, hrest⟩ := h
    rw [ih hrest, List.reverse_cons, List.append_assoc]
    simp only [shareStore] at hstep
    split at hstep
    · cases hstep
      rfl
    · cases hstep

end Run

/-! ### Two runs -/

/-- Signatures that are the lists of their shares; every share verifies. -/
def listed : ShareCrypto (List (SchainIndex × Bytes)) 4 where
  getConsensusHash _ _ := []
  verifyThresholdSigShare _ _ _ := true
  hasNodeInfo _ := true
  mergeSignature _ entries := .ok entries
  verifyThresholdSig _ _ := true
  nodeInfo _ _ _ := rfl
  merges _ _ set _ _ := ⟨set.entries, rfl, rfl⟩

instance decidableFits (totalSigners : ℕ) :
    (history : List ShareCall) → Decidable (Fits totalSigners history)
  | [] => inferInstanceAs (Decidable True)
  | _ :: earlier =>
    have := decidableFits totalSigners earlier
    inferInstanceAs (Decidable (_ ∧ _))

instance (c : ShareCall) : Decidable (c.Valid listed) :=
  decidable_of_iff ((1 ≤ c.signerIndex ∧ c.signerIndex ≤ 4) ∧ c.text ≠ [])
    ⟨fun h => ⟨h.1, h.2, rfl⟩, fun h => ⟨h.signer, h.text⟩⟩

/-- The share that node `i` sends for block one. -/
def shareOf (proposer i : ℕ) : ShareCall := ⟨1, proposer, i, [UInt8.ofNat i]⟩

/-- The shares of three nodes for the first proposer, among two that node 4 sends for others. -/
def threeShares : List ShareCall :=
  [shareOf 1 1, shareOf 2 4, shareOf 1 2, shareOf 9 4, shareOf 1 3, shareOf 1 4]

theorem answered_threeShares :
    ∃ s, (shareStore listed).run threeShares = some s ∧
      s.answers.map Prod.fst = threeShares.reverse ∧ Answered listed s.answers :=
  answered_of_fits listed (by decide) threeShares (by decide) (by decide +kernel)

section Flood
variable {c : ShareCall} {s : SigShares}

/-- A share of a block without a mark that does not complete its set. -/
theorem run_of_open {count : ℕ} (hsigner : 1 ≤ c.signerIndex ∧ c.signerIndex ≤ 4)
    (htext : c.text ≠ []) (hmark : s.get? [c.blockId] = none)
    (hshare : s.get? [c.blockId, c.proposer, c.signerIndex] = none)
    (hcounter : (BlockSigShareDB.readCounter c.blockId c.proposer s).1 = some count)
    (hcount : count + 1 ≠ 3) :
    (BlockSigShareDB.checkAndSaveShareInMemory listed c).run s = .ok none (stored c count s) := by
  have hwrite : (BlockSigShareDB.writeStringToSetInMemory 4 c.text c.blockId c.signerIndex
      c.proposer).run s = .ok none (stored c count s) := by
    rw [run_writeStringToSetInMemory hsigner, LruCache.contains, LruCache.contains, hmark, hshare,
      hcounter]
    have hopen : (count + 1 != getRequiredSigners 4) = true := by
      simpa [getRequiredSigners] using hcount
    simp [hopen]
  have hverified : listed.verifyThresholdSigShare c.signerIndex c.text
    (listed.getConsensusHash c.proposer c.blockId) = true := rfl
  unfold BlockSigShareDB.checkAndSaveShareInMemory
  dsimp only
  rw [run_checkState_bind_of_true hverified, run_checkState_bind_of_true (not_isEmpty htext)]
  exact run_bind_eq_ok.mpr ⟨none, _, hwrite, rfl⟩

theorem entries_stored (hcounter : s.get? [c.blockId, c.proposer] = none)
    (hshare : s.get? [c.blockId, c.proposer, c.signerIndex] = none) :
    (stored c 0 s).entries = (([c.blockId, c.proposer, c.signerIndex], c.text) ::
      ([c.blockId, c.proposer], decimalText 1) :: s.entries).take 256 := by
  have hread : (BlockSigShareDB.readCounter c.blockId c.proposer s).2 =
      s.put [c.blockId, c.proposer] (textBytes "0") := by
    rw [BlockSigShareDB.readCounter, hcounter]
  have hcount : ((s.put [c.blockId, c.proposer] (textBytes "0")).put [c.blockId, c.proposer]
      (decimalText 1)).entries =
        (([c.blockId, c.proposer], decimalText 1) :: s.entries).take 256 := by
    rw [LruCache.entries_put_put_self, LruCache.entries_put_of_get?_eq_none hcounter]
  have hfresh : ((s.put [c.blockId, c.proposer] (textBytes "0")).put [c.blockId, c.proposer]
      (decimalText 1)).get? [c.blockId, c.proposer, c.signerIndex] = none := by
    rw [Option.eq_none_iff_forall_ne_some]
    intro text htext
    have hmem := List.mem_of_mem_take (hcount ▸ LruCache.get?_eq_some.mp htext)
    rcases List.mem_cons.mp hmem with heq | hmem
    · cases heq
    · rw [LruCache.get?_eq_some.mpr hmem] at hshare
      cases hshare
  rw [stored, hread, LruCache.entries_put_of_get?_eq_none hfresh, hcount]
  simp only [List.take_succ_cons, List.take_take]
  rfl

/-- What node 4 sends: a share for each of `n` proposers from the second on. -/
def flood (n : ℕ) : List ShareCall := (List.range' 2 n).map fun p => shareOf p 4

/-- The entries they take, the last ones first. -/
def floodEntries : ℕ → List (List ℕ × Bytes)
  | 0 => []
  | n + 1 => ([1, n + 2, 4], [4]) :: ([1, n + 2], decimalText 1) :: floodEntries n

theorem length_floodEntries (n : ℕ) : (floodEntries n).length = 2 * n := by
  induction n with
  | zero => rfl
  | succ n ih =>
    rw [floodEntries, List.length_cons, List.length_cons, ih]
    omega

theorem of_mem_floodEntries {n : ℕ} {e : List ℕ × Bytes} (h : e ∈ floodEntries n) :
    ∃ p, 2 ≤ p ∧ p < n + 2 ∧ (e.1 = [1, p] ∨ e.1 = [1, p, 4]) := by
  induction n with
  | zero => cases h
  | succ n ih =>
    rcases List.mem_cons.mp h with rfl | h
    · exact ⟨n + 2, by omega, by omega, .inr rfl⟩
    · rcases List.mem_cons.mp h with rfl | h
      · exact ⟨n + 2, by omega, by omega, .inl rfl⟩
      · obtain ⟨p, hp, hlt, hkey⟩ := ih h
        exact ⟨p, hp, by omega, hkey⟩

theorem get?_eq_none {k : List ℕ} (h : ∀ e ∈ s.entries, e.1 ≠ k) : s.get? k = none := by
  rw [Option.eq_none_iff_forall_ne_some]
  exact fun a ha => h _ (LruCache.get?_eq_some.mp ha) rfl

/-- A call for a proposer that is not in the cache: it counts one share. -/
theorem step_of_unknown {i p : ℕ} (hi : 1 ≤ i ∧ i ≤ 4) {s : ShareRun (List (SchainIndex × Bytes))}
    (hmark : ∀ e ∈ s.sigShares.entries, e.1 ≠ [1])
    (hp : ∀ e ∈ s.sigShares.entries, e.1 ≠ [1, p] ∧ e.1 ≠ [1, p, i]) :
    ∃ s', (shareStore listed).step (shareOf p i) s =
        some ⟨s', (shareOf p i, none) :: s.answers⟩ ∧
      s'.entries = (([1, p, i], [UInt8.ofNat i]) :: ([1, p], decimalText 1) ::
        s.sigShares.entries).take 256 := by
  have hcounter : s.sigShares.get? [1, p] = none := get?_eq_none fun e he => (hp e he).1
  have hshare : s.sigShares.get? [1, p, i] = none := get?_eq_none fun e he => (hp e he).2
  have hread : (BlockSigShareDB.readCounter 1 p s.sigShares).1 = some 0 := by
    rw [BlockSigShareDB.readCounter, hcounter]
  have hrun := run_of_open (c := shareOf p i) hi (List.cons_ne_nil _ _) (get?_eq_none hmark) hshare
    hread (by decide)
  refine ⟨_, ?_, entries_stored (c := shareOf p i) hcounter hshare⟩
  simp only [shareStore, hrun]

theorem run_flood (n : ℕ) {s : ShareRun (List (SchainIndex × Bytes))}
    (hs : s.sigShares.entries = [([1, 1, 1], [1]), ([1, 1], decimalText 1)]) :
    ∃ s', (shareStore listed).runFrom s (flood n) = some s' ∧
      s'.sigShares.entries = (floodEntries n ++ s.sigShares.entries).take 256 := by
  induction n with
  | zero => exact ⟨s, rfl, by rw [hs]; rfl⟩
  | succ n ih =>
    obtain ⟨s₁, hrun, hentries⟩ := ih
    have hkeys : ∀ e ∈ s₁.sigShares.entries, ∃ p < n + 2, e.1 = [1, p] ∨ ∃ i, e.1 = [1, p, i] := by
      intro e he
      rw [hentries, hs] at he
      rcases List.mem_append.mp (List.mem_of_mem_take he) with he | he
      · obtain ⟨p, -, hlt, hkey⟩ := of_mem_floodEntries he
        exact ⟨p, hlt, hkey.imp_right fun h => ⟨4, h⟩⟩
      · rcases List.mem_pair.mp he with rfl | rfl
        · exact ⟨1, by omega, .inr ⟨1, rfl⟩⟩
        · exact ⟨1, by omega, .inl rfl⟩
    obtain ⟨s₂, hstep, hentries₂⟩ := step_of_unknown (i := 4) (p := n + 2) (by decide)
      (fun e he => by obtain ⟨p, -, h | ⟨i, h⟩⟩ := hkeys e he <;> simp [h])
      (fun e he => by obtain ⟨p, hlt, h | ⟨i, h⟩⟩ := hkeys e he <;> simp [h] <;> omega)
    refine ⟨⟨s₂, (shareOf (n + 2) 4, none) :: s₁.answers⟩, ?_, ?_⟩
    · rw [flood, List.range'_1_concat, List.map_append, Machine.runFrom_append]
      rw [flood] at hrun
      rw [hrun]
      simpa [Machine.runFrom, Nat.add_comm] using hstep
    · rw [hentries₂, hentries, floodEntries, List.cons_append, List.cons_append]
      simp only [List.take_succ_cons, List.take_take]
      rfl

/-- Node 4 sends its shares after that of node 1; then nodes 2 and 3 send theirs. -/
def floodedShares : List ShareCall :=
  [shareOf 1 1] ++ flood 128 ++ [shareOf 1 2, shareOf 1 3]

/-- After that the cache has nothing of the first share. -/
theorem run_floodedShares :
    ∃ s, (shareStore listed).run floodedShares = some s ∧
      s.answers.head? = some (shareOf 1 3, none) := by
  obtain ⟨c₀, hfirst, hentries₀⟩ := step_of_unknown (i := 1) (p := 1) (by decide)
    (s := (shareStore listed).initial) nofun nofun
  obtain ⟨s₁, hflood, hentries₁⟩ := run_flood 128 (s := ⟨c₀, [(shareOf 1 1, none)]⟩) hentries₀
  have hflooded : s₁.sigShares.entries = floodEntries 128 := by
    rw [hentries₁]
    exact List.take_left' (length_floodEntries 128)
  have hkeys : ∀ e ∈ s₁.sigShares.entries, ∃ p, 2 ≤ p ∧ (e.1 = [1, p] ∨ e.1 = [1, p, 4]) := by
    intro e he
    obtain ⟨p, hp, -, hkey⟩ := of_mem_floodEntries (hflooded ▸ he)
    exact ⟨p, hp, hkey⟩
  obtain ⟨c₂, hsecond, hentries₂⟩ := step_of_unknown (i := 2) (p := 1) (by decide)
    (fun e he => by obtain ⟨p, -, h | h⟩ := hkeys e he <;> simp [h])
    (fun e he => by
      obtain ⟨p, hp, h | h⟩ := hkeys e he <;> simp [h]
      omega)
  have hmem : ∀ e ∈ c₂.entries, e.1 = [1, 1, 2] ∨ e.1 = [1, 1] ∨
      ∃ p, 2 ≤ p ∧ (e.1 = [1, p] ∨ e.1 = [1, p, 4]) := by
    intro e he
    rw [hentries₂] at he
    rcases List.mem_cons.mp (List.mem_of_mem_take he) with rfl | he
    · exact .inl rfl
    · rcases List.mem_cons.mp he with rfl | he
      · exact .inr (.inl rfl)
      · exact .inr (.inr (hkeys e he))
  have hcounter : (BlockSigShareDB.readCounter 1 1 c₂).1 = some 1 := by
    have hget : c₂.get? [1, 1] = some (decimalText 1) := by
      rw [LruCache.get?_eq_some, hentries₂]
      exact List.mem_cons_of_mem _ List.mem_cons_self
    rw [BlockSigShareDB.readCounter, hget]
    exact stoull_decimalText (by decide : 1 < 2 ^ 64)
  have hthird := run_of_open (c := shareOf 1 3) (by decide) (List.cons_ne_nil _ _)
    (get?_eq_none fun e he => by
      obtain h | h | ⟨p, -, h | h⟩ := hmem e he <;> simp [h, shareOf])
    (get?_eq_none fun e he => by
      obtain h | h | ⟨p, -, h | h⟩ := hmem e he <;> simp [h, shareOf]) hcounter (by decide)
  have hbegin : (shareStore listed).runFrom (shareStore listed).initial [shareOf 1 1] =
      some ⟨c₀, [(shareOf 1 1, none)]⟩ := by
    simp [Machine.runFrom, hfirst]
    rfl
  have hend : (shareStore listed).runFrom s₁ [shareOf 1 2, shareOf 1 3] = some
      ⟨stored (shareOf 1 3) 1 c₂, (shareOf 1 3, none) :: (shareOf 1 2, none) :: s₁.answers⟩ := by
    simp only [Machine.runFrom, hsecond, Option.bind_some]
    simp only [shareStore, hthird]
    rfl
  rw [Machine.run, floodedShares, Machine.runFrom_append, Machine.runFrom_append, hbegin,
    Option.bind_some, hflood, Option.bind_some, hend]
  exact ⟨_, rfl, rfl⟩

theorem third_share_returns_null :
    (∀ c ∈ floodedShares, c.Valid listed) ∧
      Completes 4 (floodedShares.reverse.drop 1) (shareOf 1 3) ∧
      ∃ s, (shareStore listed).run floodedShares = some s ∧
        s.answers.head? = some (shareOf 1 3, none) ∧ ¬ Answered listed s.answers := by
  have hcompletes : Completes 4 (floodedShares.reverse.drop 1) (shareOf 1 3) := by decide +kernel
  obtain ⟨s, hrun, hhead⟩ := run_floodedShares
  refine ⟨by decide +kernel, hcompletes, s, hrun, hhead, fun hanswered => ?_⟩
  have hcalls := calls_of_runFrom hrun
  cases hanswers : s.answers with
  | nil => simp [hanswers] at hhead
  | cons last rest =>
    rw [hanswers] at hhead hcalls hanswered
    cases hhead
    have hrest : rest.map Prod.fst = floodedShares.reverse.drop 1 := by
      have := congrArg (List.drop 1) hcalls
      simpa [shareStore] using this
    have hanswer := hanswered.1
    rw [hrest, Answers, if_pos hcompletes] at hanswer
    obtain ⟨_, _, hsome, _⟩ := hanswer
    cases hsome

end Flood

end SkaleConsensus.Db
