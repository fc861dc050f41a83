import Mathlib.Data.List.TakeWhile
import SkaleConsensus.Crypto.DAProof

/-! Keys across node rotations.

A rotation replaces nodes of the chain, and with them the BLS key. Three tables keep what is
needed to verify older blocks: the node ids and the BLS key of each group, both by the time
stamp at which the group finished, and the ECDSA key of every node there has been. Each lookup
searches its own table for the group of a time stamp and for the group before it, which signed
the last block before the rotation.

All three find the same two groups at every time stamp (`lookups_exact`), so that the signers
of a block are looked up in the group whose key verifies it. -/
namespace SkaleConsensus.Crypto
open Library

/-- The BLS keys a `CryptoManager` verifies with. -/
structure BlsPublicKeys (κ : Type) where
  sgxBLSPublicKey : Option κ
  previousBlsPublicKeys : OrderedMap ℕ κ

/-- The second key is that of the group before, if there is one. -/
def getSgxBlsPublicKey {κ : Type} (keys : BlsPublicKeys κ) (timeStamp : ℕ) :
    Except String (κ × Option κ) :=
  if timeStamp = currentTimeStamp ∨ keys.previousBlsPublicKeys.size < 2 then
    match keys.sgxBLSPublicKey with
    | some key => pure (key, none)
    | none => throw "sgxBLSPublicKey"
  else
    match keys.previousBlsPublicKeys.upperBound timeStamp with
    | some (_, key) =>
      pure (key, (keys.previousBlsPublicKeys.beforeUpperBound timeStamp).map Prod.snd)
    | none => throw "no BLS public key"

/-! ### Rotation histories -/

/-- The nodes of the chain between two rotations. -/
structure NodeGroup (κ : Type) (n : ℕ) where
  finishTs : ℕ
  nodeIds : Vector NodeID n
  blsPublicKey : κ

/-- The groups of a chain in the order they were in charge; the current one has no end. -/
structure RotationHistory (κ : Type) (n : ℕ) where
  groups : List (NodeGroup κ n)
  rotated : 2 ≤ groups.length
  increasing : groups.Pairwise fun g h => g.finishTs < h.finishTs
  unfinished : groups.getLast?.map NodeGroup.finishTs = some currentTimeStamp

namespace RotationHistory
variable {κ : Type} {n : ℕ} (history : RotationHistory κ n)

/-- What `setRotationHistory` stores of each group, by the time stamp it finished at. -/
def table {α : Type} (f : NodeGroup κ n → α) : OrderedMap ℕ α :=
  ⟨history.groups.map fun g => (g.finishTs, f g), history.increasing.map _ fun _ _ h => h⟩

/-- The group with the smallest finish time stamp after `t`. -/
def Current (t : ℕ) (g : NodeGroup κ n) : Prop :=
  g ∈ history.groups ∧ t < g.finishTs ∧
    ∀ h ∈ history.groups, t < h.finishTs → g.finishTs ≤ h.finishTs

/-- The group before `g`, if it is not the first. -/
def previous (g : NodeGroup κ n) : Option (NodeGroup κ n) :=
  (history.groups.filter fun h => h.finishTs < g.finishTs).getLast?

/-- The tables of the verifying functions hold the history, and every ECDSA key is known. -/
structure Installed (cm : CryptoManager) (keys : BlsPublicKeys κ) : Prop where
  nodeGroups : cm.historicNodeGroups = history.table fun g => g.nodeIds.toList
  blsKeys : keys.previousBlsPublicKeys = history.table NodeGroup.blsPublicKey
  historic : ∀ g ∈ history.groups, ∀ id ∈ g.nodeIds,
    ∃ key, cm.historicECDSAPublicKeys id = some key ∧ key ≠ []
  current : ∀ id key, cm.ecdsaPublicKeyMap id = some key → key ≠ []

/-! ### Where the lookups end up -/

variable {history} {t : ℕ} {g : NodeGroup κ n}

theorem exists_split (ht : t < currentTimeStamp) :
    ∃ before g after, history.groups = before ++ g :: after ∧
      (∀ h ∈ before, h.finishTs ≤ t) ∧ t < g.finishTs := by
  let ended := fun h : NodeGroup κ n => decide (h.finishTs ≤ t)
  have hsplit : history.groups.takeWhile ended ++ history.groups.dropWhile ended =
    history.groups := List.takeWhile_append_dropWhile
  cases hdrop : history.groups.dropWhile ended with
  | nil =>
    obtain ⟨last, hlast, hunfinished⟩ := Option.map_eq_some_iff.mp history.unfinished
    have hended := List.dropWhile_eq_nil_iff.mp hdrop last (List.mem_of_getLast? hlast)
    simp only [ended, decide_eq_true_eq, hunfinished] at hended
    omega
  | cons g after =>
    refine ⟨_, g, after, (hdrop ▸ hsplit).symm, fun h hh => ?_, ?_⟩
    · simpa [ended] using List.mem_takeWhile_imp hh
    · have hhead := List.head?_dropWhile_not ended history.groups
      rw [hdrop] at hhead
      simpa [ended] using hhead

section Split
variable {before after : List (NodeGroup κ n)} (hsplit : history.groups = before ++ g :: after)
  {h : NodeGroup κ n}
include hsplit

theorem finishTs_lt_of_before (hh : h ∈ before) : h.finishTs < g.finishTs := by
  have hincreasing := history.increasing
  rw [hsplit, List.pairwise_append] at hincreasing
  exact hincreasing.2.2 h hh g List.mem_cons_self

theorem finishTs_lt_of_after (hh : h ∈ after) : g.finishTs < h.finishTs := by
  have hincreasing := history.increasing
  rw [hsplit, List.pairwise_append] at hincreasing
  exact (List.pairwise_cons.mp hincreasing.2.1).1 h hh

theorem previous_eq : history.previous g = before.getLast? := by
  have hbefore : (before.filter fun h => h.finishTs < g.finishTs) = before :=
    List.filter_eq_self.mpr fun h hh => decide_eq_true (finishTs_lt_of_before hsplit hh)
  have hafter : (after.filter fun h => h.finishTs < g.finishTs) = [] :=
    List.filter_eq_nil_iff.mpr fun h hh => by
      have := finishTs_lt_of_after hsplit hh
      simp only [decide_eq_true_eq]
      omega
  simp [previous, hsplit, hbefore, hafter]

theorem current_iff (hbefore : ∀ h ∈ before, h.finishTs ≤ t) (hg : t < g.finishTs) :
    history.Current t h ↔ h = g := by
  have hmem : g ∈ history.groups := by simp [hsplit]
  constructor
  · rintro ⟨hh, ht, hleast⟩
    have hle := hleast g hmem hg
    rw [hsplit, List.mem_append, List.mem_cons] at hh
    rcases hh with hh | rfl | hh
    · have := hbefore h hh
      omega
    · rfl
    · have := finishTs_lt_of_after hsplit hh
      omega
  · rintro rfl
    refine ⟨hmem, hg, fun other hother ht => ?_⟩
    rw [hsplit, List.mem_append, List.mem_cons] at hother
    rcases hother with hother | rfl | hother
    · have := hbefore other hother
      omega
    · exact le_refl _
    · exact (finishTs_lt_of_after hsplit hother).le

theorem upperBound_table {α : Type} (f : NodeGroup κ n → α)
    (hbefore : ∀ h ∈ before, h.finishTs ≤ t) (hg : t < g.finishTs) :
    (history.table f).upperBound t = some (g.finishTs, f g) := by
  have hpos : ∀ e ∈ before.map fun h => (h.finishTs, f h), decide (e.1 ≤ t) = true := by
    simpa using hbefore
  simp only [OrderedMap.upperBound, table, hsplit, List.map_append, List.map_cons]
  rw [List.dropWhile_append_of_pos hpos, List.dropWhile_cons_of_neg (by simpa using hg)]
  rfl

theorem beforeUpperBound_table {α : Type} (f : NodeGroup κ n → α)
    (hbefore : ∀ h ∈ before, h.finishTs ≤ t) (hg : t < g.finishTs) :
    (history.table f).beforeUpperBound t =
      (history.previous g).map fun h => (h.finishTs, f h) := by
  have hpos : ∀ e ∈ before.map fun h => (h.finishTs, f h), decide (e.1 ≤ t) = true := by
    simpa using hbefore
  simp only [OrderedMap.beforeUpperBound, table, hsplit, List.map_append, List.map_cons]
  rw [List.takeWhile_append_of_pos hpos, List.takeWhile_cons_of_neg (by simpa using hg),
    List.append_nil, List.getLast?_map, previous_eq hsplit]

end Split

theorem mem_of_previous {h : NodeGroup κ n} (hh : history.previous g = some h) :
    h ∈ history.groups :=
  (List.mem_filter.mp (List.mem_of_getLast? hh)).1

theorem size_table {α : Type} (f : NodeGroup κ n → α) : ¬ (history.table f).size < 2 := by
  have hsize : (history.table f).size = history.groups.length := by
    simp only [OrderedMap.size, table, List.length_map]
  rw [hsize]
  exact Nat.not_lt.mpr history.rotated

/-! ### The three lookups -/

variable {cm : CryptoManager} {keys : BlsPublicKeys κ}

/-- What the tables give for the group of a time stamp, whatever is stored of it. -/
structure Found (history : RotationHistory κ n) (t : ℕ) (g : NodeGroup κ n) : Prop where
  past : t ≠ currentTimeStamp
  upper : ∀ {α : Type} (f : NodeGroup κ n → α),
    (history.table f).upperBound t = some (g.finishTs, f g)
  before : ∀ {α : Type} (f : NodeGroup κ n → α),
    (history.table f).beforeUpperBound t = (history.previous g).map fun h => (h.finishTs, f h)

theorem Found.groupsAt (hfound : Found history t g) (hin : history.Installed cm keys) :
    cm.groupsAt t =
      (some g.nodeIds.toList, (history.previous g).map fun h => h.nodeIds.toList) := by
  simp [CryptoManager.groupsAt, hin.nodeGroups, hfound.upper, hfound.before, Function.comp_def]

theorem Found.getSgxBlsPublicKey_eq (hfound : Found history t g) (hin : history.Installed cm keys) :
    getSgxBlsPublicKey keys t =
      .ok (g.blsPublicKey, (history.previous g).map NodeGroup.blsPublicKey) := by
  have hsize : ¬ (t = currentTimeStamp ∨ keys.previousBlsPublicKeys.size < 2) := by
    rw [hin.blsKeys]
    exact not_or.mpr ⟨hfound.past, size_table _⟩
  rw [getSgxBlsPublicKey, if_neg hsize, hin.blsKeys, hfound.upper, hfound.before, Option.map_map]
  rfl

theorem Found.getHistoricNodeIDByIndex_eq (hfound : Found history t g)
    (hin : history.Installed cm keys) (i : Fin n) :
    getHistoricNodeIDByIndex cm (i + 1) t =
      .ok (g.nodeIds.get i, ((history.previous g).map fun h => h.nodeIds.get i).getD noNodeID) := by
  have hsize : ¬ (t = currentTimeStamp ∨ cm.historicNodeGroups.size < 2) := by
    rw [hin.nodeGroups]
    exact not_or.mpr ⟨hfound.past, size_table _⟩
  have hget : ∀ h : NodeGroup κ n, h.nodeIds.toList[(i : ℕ) + 1 - 1]? = some (h.nodeIds.get i) :=
    fun h => by simp [Vector.get]
  rw [getHistoricNodeIDByIndex, if_neg hsize, hfound.groupsAt hin]
  cases history.previous g with
  | none => simp only [Option.map_none, hget]; rfl
  | some h => simp only [Option.map_some, hget]; rfl

theorem Found.getECDSAPublicKeyForNodeId_ne_nil (hfound : Found history t g)
    (hin : history.Installed cm keys) {h : NodeGroup κ n} (hh : h ∈ history.groups)
    (hgroup : h = g ∨ history.previous g = some h) {id : NodeID} (hid : id ∈ h.nodeIds) :
    cm.getECDSAPublicKeyForNodeId id t ≠ [] := by
  unfold CryptoManager.getECDSAPublicKeyForNodeId
  cases hcurrent : cm.ecdsaPublicKeyMap id with
  | some key => exact hin.current id key hcurrent
  | none =>
    obtain ⟨key, hkey, hne⟩ := hin.historic h hh id hid
    have hmember : id ∈ g.nodeIds ∨
        id ∈ ((history.previous g).map fun h => h.nodeIds.toList).getD [] := by
      rcases hgroup with rfl | hprevious
      · exact .inl hid
      · rw [hprevious]
        exact .inr (Vector.mem_toList_iff.mpr hid)
    simpa [CryptoManager.getECDSAHistoricPublicKeyForNodeId, hfound.past, hfound.groupsAt hin,
      hmember, hkey] using hne

/-- A block of time stamp `t` that the nodes of `h` signed passes the lookups: the BLS key is
tried, the node at each index is, and that node has an ECDSA key. -/
def Passes (cm : CryptoManager) (keys : BlsPublicKeys κ) (t : ℕ) (h : NodeGroup κ n) : Prop :=
  (∃ pair, getSgxBlsPublicKey keys t = .ok pair ∧
    (pair.1 = h.blsPublicKey ∨ pair.2 = some h.blsPublicKey)) ∧
  ∀ i : Fin n, (∃ ids, getHistoricNodeIDByIndex cm (i + 1) t = .ok ids ∧
      (ids.1 = h.nodeIds.get i ∨ ids.2 = h.nodeIds.get i)) ∧
    cm.getECDSAPublicKeyForNodeId (h.nodeIds.get i) t ≠ []

/-- **At every time stamp the three lookups find the same two groups**: the one that was in
charge and the one before it. -/
theorem lookups_exact (history : RotationHistory κ n) (cm : CryptoManager)
    (keys : BlsPublicKeys κ) (hin : history.Installed cm keys) (t : ℕ)
    (ht : t < currentTimeStamp) :
    ∃ g, (∀ h, history.Current t h ↔ h = g) ∧
      getSgxBlsPublicKey keys t =
        .ok (g.blsPublicKey, (history.previous g).map NodeGroup.blsPublicKey) ∧
      (∀ i : Fin n, getHistoricNodeIDByIndex cm (i + 1) t =
        .ok (g.nodeIds.get i,
          ((history.previous g).map fun h => h.nodeIds.get i).getD noNodeID)) ∧
      ∀ h, h = g ∨ history.previous g = some h →
        (∀ id ∈ h.nodeIds, cm.getECDSAPublicKeyForNodeId id t ≠ []) ∧ Passes cm keys t h := by
  obtain ⟨before, g, after, hsplit, hbefore, hg⟩ := history.exists_split ht
  have hfound : Found history t g :=
    ⟨ht.ne, fun f => upperBound_table hsplit f hbefore hg,
      fun f => beforeUpperBound_table hsplit f hbefore hg⟩
  have hbls := hfound.getSgxBlsPublicKey_eq hin
  have hids := hfound.getHistoricNodeIDByIndex_eq hin
  refine ⟨g, fun h => current_iff hsplit hbefore hg, hbls, hids, fun h hgroup => ?_⟩
  have hmem : h ∈ history.groups := by
    rcases hgroup with rfl | hprevious
    · simp [hsplit]
    · exact mem_of_previous hprevious
  have hecdsa : ∀ id ∈ h.nodeIds, cm.getECDSAPublicKeyForNodeId id t ≠ [] :=
    fun id hid => hfound.getECDSAPublicKeyForNodeId_ne_nil hin hmem hgroup hid
  refine ⟨hecdsa, ⟨_, hbls, ?_⟩, fun i => ⟨⟨_, hids i, ?_⟩, hecdsa _ ?_⟩⟩
  · rcases hgroup with rfl | hprevious
    · exact .inl rfl
    · simp [hprevious]
  · rcases hgroup with rfl | hprevious
    · exact .inl rfl
    · simp [hprevious]
  · simp [Vector.get]

/-- Four nodes, of which the last two replaced others at the time stamps 100 and 200. -/
def twiceRotated : RotationHistory ℕ 4 where
  groups := [⟨100, #v[11, 12, 15, 16], 1⟩, ⟨200, #v[11, 12, 13, 16], 2⟩,
    ⟨currentTimeStamp, #v[11, 12, 13, 14], 3⟩]
  rotated := by decide
  increasing := by decide
  unfinished := rfl

def rotatedSigners : CryptoManager :=
  {fourSigners [] [] with
    historicECDSAPublicKeys := fun id => some (letter id)
    historicNodeGroups := twiceRotated.table fun g => g.nodeIds.toList }

def rotatedKeys : BlsPublicKeys ℕ := ⟨some 3, twiceRotated.table NodeGroup.blsPublicKey⟩

theorem installed_twiceRotated : twiceRotated.Installed rotatedSigners rotatedKeys where
  nodeGroups := rfl
  blsKeys := rfl
  historic _ _ id _ := ⟨letter id, rfl, by simp [letter]⟩
  current id key h := by
    simp only [rotatedSigners, fourSigners, Option.ite_none_right_eq_some, Option.some.injEq] at h
    rw [← h.2, letter]
    exact List.cons_ne_nil _ _

/-- A block made at the first rotation is looked up in the second group and in the first. -/
theorem lookups_exact_at_rotation :
    ∃ g, (∀ h, twiceRotated.Current 100 h ↔ h = g) ∧
      getSgxBlsPublicKey rotatedKeys 100 = .ok (2, some 1) ∧
      getHistoricNodeIDByIndex rotatedSigners 3 100 = .ok (13, 15) ∧
      Passes rotatedSigners rotatedKeys 100 g := by
  obtain ⟨g, hcurrent, -, -, hpasses⟩ := lookups_exact twiceRotated rotatedSigners rotatedKeys
    installed_twiceRotated 100 (by decide)
  exact ⟨g, hcurrent, by decide, by decide, (hpasses g (.inl rfl)).2⟩

end RotationHistory

end SkaleConsensus.Crypto
