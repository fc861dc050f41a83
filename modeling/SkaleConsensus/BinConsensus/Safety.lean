import SkaleConsensus.BinConsensus.System
import SkaleConsensus.Library.CoinRounds

/-! Agreement and validity of binary consensus.

The instances of one key at the correct nodes are an instance of `CoinRounds`,
and its laws hold in every state of every run. Validity needs nothing else.
Agreement needs that a quorum of AUX votes is unique in its round, which is a
count over the code's own votes, and that the nodes drew the same random
numbers. -/
namespace SkaleConsensus.BinConsensus
open Library

/-- What the correct instances of a key did. -/
def rounds (D : Deployment) (K : ProtocolKey) (s : System) : CoinRounds {i // i ∈ D.correct} where
  estimate i r b := Estimated (s.view K i) b r
  binary i r b := Value.ofBool b ∈ (s.view K i).inst.binValues r
  supported i r b := Supports (D.node i) (s.view K i).inst r b
  coin i r b := ∃ random, (r, random) ∈ (s.view K i).randomDB ∧ commonCoinValue random = b
  decision i r b := (s.view K i).inst.isDecided = true ∧ (s.view K i).inst.decidedRound = r ∧
    (s.view K i).inst.decidedValue = Value.ofBool b

/-- The correct nodes that drew a random number for a round drew the same one. -/
def SameRandom (D : Deployment) (K : ProtocolKey) (s : System) : Prop :=
  ∀ i ∈ D.correct, ∀ j ∈ D.correct, ∀ x ∈ (s.view K i).randomDB, ∀ y ∈ (s.view K j).randomDB,
    x.1 = y.1 → x.2 = y.2

instance (D : Deployment) (K : ProtocolKey) (s : System) : Decidable (SameRandom D K s) :=
  inferInstanceAs (Decidable (∀ i ∈ D.correct, ∀ j ∈ D.correct, ∀ x ∈ (s.view K i).randomDB,
    ∀ y ∈ (s.view K j).randomDB, x.1 = y.1 → x.2 = y.2))

variable {D : Deployment} {K : ProtocolKey} {s : System}

theorem two_thirds_lt {c : Schain} {count : ℕ} (h : isTwoThird c count = true) :
    2 * c.nodeCount < 3 * count := by
  simp only [isTwoThird, decide_eq_true_eq] at h
  omega

namespace SystemInv

variable {i : SchainIndex}

theorem estimated_of_binary (h : SystemInv D s) {r : ℕ} {b : Bool}
    (hb : Value.ofBool b ∈ (s.view K i).inst.binValues r) :
    ∃ j ∈ D.correct, Estimated (s.view K j) b r := by
  have hquorum := two_thirds_lt (((h.consistent K).exec i).quorum r _ hb)
  rw [D.node_nodeCount, BinConsensusInstance.getBVBVoteCount, Value.toBool_ofBool] at hquorum
  exact (h.consistent K).estimated_of_third (i := i) (by omega)

/-- Two quorums of AUX votes in one round share a correct node, and it sent one value. -/
theorem supports_unique (h : SystemInv D s) {j : SchainIndex} {r : ℕ} {b b' : Bool}
    (hi : Supports (D.node i) (s.view K i).inst r b)
    (hj : Supports (D.node j) (s.view K j).inst r b') : b = b' := by
  have hcons := h.consistent K
  have hnodes : ∀ k c, ((s.view K k).inst.auxVotes c r).keys ⊆ D.nodes :=
    fun k c l hl => (hcons.auxVotes k c r l hl).1
  have hqi := two_thirds_lt hi.2
  have hqj := two_thirds_lt hj.2
  rw [OrderedMap.size_eq_card, D.node_nodeCount, ← Deployment.card_nodes] at hqi hqj
  have hthird : 3 * D.byzantine.card < D.nodes.card := by
    rw [Deployment.card_nodes]
    exact D.byzantine_lt_third
  obtain ⟨k, hki, hkj, hbyz⟩ :=
    Quorum.exists_common_of_two_thirds (hnodes i b) (hnodes j b') hthird hqi hqj
  have hcorrect := Deployment.mem_correct_of_notMem (hnodes i b hki) hbyz
  obtain ⟨m, hm, htype, hr, hb⟩ := (hcons.auxVotes i b r k hki).2 hcorrect
  obtain ⟨m', hm', htype', hr', hb'⟩ := (hcons.auxVotes j b' r k hkj).2 hcorrect
  rw [← hb, ← hb', (hcons.exec k).auxUnique m hm m' hm' r ⟨htype, hr⟩ ⟨htype', hr'⟩]

theorem lawful (h : SystemInv D s) (K : ProtocolKey) : (rounds D K s).Lawful where
  grounded hb := by
    obtain ⟨j, hj, hest⟩ := h.estimated_of_binary hb
    exact ⟨⟨j, hj⟩, hest⟩
  binary_of_supported hs := hs.1
  next {i r b} hest := by
    have hexec := (h.consistent K).exec i
    generalize hv : Value.ofBool b = v at *
    have hcarried : NextEstimate _ _ r v := hexec.carried r v (by rw [← hv]; exact hest)
    cases hcarried with
    | coin random hmem hboth =>
      exact .inl ⟨⟨random, hmem, (Value.ofBool_injective hv).symm⟩, hboth⟩
    | supported b' hs =>
      obtain rfl := Value.ofBool_injective hv
      exact .inr (.inl hs)
    | decided hd hle => exact .inr (.inr ⟨_, hle, hd, rfl, hv.symm⟩)
  coin_of_decision {i r b} hd := by
    obtain ⟨hdecided, rfl, hvalue⟩ := hd
    obtain ⟨-, random, hmem, hvalue', -⟩ := ((h.consistent K).exec i).decision hdecided
    exact ⟨random, hmem, Value.ofBool_injective (hvalue'.symm.trans hvalue)⟩
  supported_of_decision {i r b} hd := by
    obtain ⟨hdecided, rfl, hvalue⟩ := hd
    obtain ⟨-, random, -, hvalue', hs⟩ := ((h.consistent K).exec i).decision hdecided
    rw [Value.ofBool_injective (hvalue'.symm.trans hvalue)] at hs
    exact hs

theorem unique (h : SystemInv D s) (hrandom : SameRandom D K s) : (rounds D K s).Unique where
  coin {i j r b b'} hi hj := by
    obtain ⟨x, hx, rfl⟩ := hi
    obtain ⟨y, hy, rfl⟩ := hj
    exact congrArg commonCoinValue (hrandom i i.2 j j.2 (r, x) hx (r, y) hy rfl)
  supported hi hj := h.supports_unique hi hj

theorem decision_of_isDecided (h : SystemInv D s) (hi : i ∈ D.correct)
    (hd : (s.view K i).inst.isDecided = true) :
    ∃ b, (s.view K i).inst.decidedValue = Value.ofBool b ∧
      (rounds D K s).decision ⟨i, hi⟩ (s.view K i).inst.decidedRound b := by
  obtain ⟨-, random, -, hvalue, -⟩ := ((h.consistent K).exec i).decision hd
  exact ⟨_, hvalue, hd, rfl, hvalue⟩

end SystemInv

/-- No two correct instances of a key decide differently, and after a decision in
a round every later round is entered with the decided value. -/
theorem decided_agree (hs : (machine D).Reachable s) (hrandom : SameRandom D K s)
    {i : SchainIndex} (hi : i ∈ D.correct) (hd : (s.children i K).inst.isDecided = true)
    {j : SchainIndex} (hj : j ∈ D.correct) :
    ((s.children j K).inst.isDecided = true →
      (s.children j K).inst.decidedValue = (s.children i K).inst.decidedValue) ∧
    ∀ r, (s.children i K).inst.decidedRound < r → r ≤ (s.children j K).inst.currentRound →
      (s.children j K).inst.proposals r = some (s.children i K).inst.decidedValue := by
  have h := systemInv_of_reachable hs
  have hlawful := h.lawful K
  have hunique := h.unique hrandom
  obtain ⟨b, hvalue, hdecision⟩ := h.decision_of_isDecided hi hd
  change (s.children i K).inst.decidedValue = Value.ofBool b at hvalue
  rw [hvalue]
  constructor
  · intro hd'
    obtain ⟨b', hvalue', hdecision'⟩ := h.decision_of_isDecided hj hd'
    change (s.children j K).inst.decidedValue = Value.ofBool b' at hvalue'
    rw [hvalue', hlawful.agreement hunique hdecision' hdecision]
  · intro r hlt hle
    have hexec := (h.consistent K).exec j
    obtain ⟨v, hv⟩ := Option.ne_none_iff_exists'.mp (hexec.entered r (by omega) hle)
    obtain ⟨b', rfl⟩ := hexec.binary r v hv
    have hest : (rounds D K s).estimate ⟨j, hj⟩ r b' := hv
    rw [← hlawful.persistence hunique hdecision hlt hest]
    exact hv

/-! Four nodes, the last one Byzantine, with a coin that always comes up true. -/

def plainNode (nodeCount : ℕ) (i : SchainIndex) : Schain where
  schainID := 1
  nodeCount := nodeCount
  schainIndex := i
  sgxEnabled := false
  blake3 := fun _ => []
  signBinaryConsensusSigShare := fun _ _ _ => ⟨i, ""⟩
  verifyThresholdSigShare := fun _ _ => true
  addSigShare := fun shares share => shares ++ [share]
  isEnough := fun shares => decide (getRequiredSigners nodeCount ≤ shares.length)
  mergeSignatureGetRandom := fun _ => 0

def fourNodes : Deployment where
  nodeCount := 4
  byzantine := {4}
  byzantine_subset := by decide
  byzantine_lt_third := by decide
  node := plainNode 4
  node_nodeCount _ := rfl
  node_schainIndex _ := rfl

def firstKey : ProtocolKey := ⟨1, 1⟩

/-- Node `j` is posted a message of node `i` for `firstKey` and processes it. -/
def hears (j i : SchainIndex) (msgType : MsgType) (r : ℕ) (b : Bool) : List Event :=
  [.post j ⟨.network, ⟨msgType, firstKey.blockID, firstKey.blockProposerIndex, r,
    Value.ofBool b, none⟩, i⟩, .process j]

/-- Two nodes decide true with the help of the Byzantine one. -/
def decidingRun : List Event :=
  [.propose 1 firstKey true, .propose 2 firstKey true, .propose 3 firstKey false] ++
  hears 1 2 .bvBroadcast 0 true ++ hears 1 4 .bvBroadcast 0 true ++
  hears 2 1 .bvBroadcast 0 true ++ hears 2 4 .bvBroadcast 0 true ++
  hears 1 2 .auxBroadcast 0 true ++ hears 1 4 .auxBroadcast 0 true ++
  hears 2 1 .auxBroadcast 0 true ++ hears 2 4 .auxBroadcast 0 true

theorem decided_agree_fourNodes :
    ∃ s, (machine fourNodes).run decidingRun = some s ∧
      (s.children 1 firstKey).inst.isDecided = true ∧
      (s.children 2 firstKey).inst.decidedValue = (s.children 1 firstKey).inst.decidedValue := by
  obtain ⟨s, hrun, hrandom, hd, hd'⟩ : ∃ s, (machine fourNodes).run decidingRun = some s ∧
      SameRandom fourNodes firstKey s ∧ (s.children 1 firstKey).inst.isDecided = true ∧
      (s.children 2 firstKey).inst.isDecided = true :=
    Machine.exists_run (by decide +kernel)
  exact ⟨s, hrun, hd, (decided_agree ⟨_, hrun⟩ hrandom (by decide) hd (by decide)).1 hd'⟩

/-- A binary value of a correct instance is the estimate some correct node entered
the round with, and a decision is some correct node's proposal. -/
theorem decided_proposed (hs : (machine D).Reachable s) {i : SchainIndex} (hi : i ∈ D.correct) :
    (∀ b r, Value.ofBool b ∈ (s.children i K).inst.binValues r →
      ∃ j ∈ D.correct, r ≤ (s.children j K).inst.currentRound ∧
        (s.children j K).inst.proposals r = some (Value.ofBool b)) ∧
    ((s.children i K).inst.isDecided = true →
      ∃ j ∈ D.correct, (s.children j K).inst.proposals 0 =
        some (s.children i K).inst.decidedValue) := by
  have h := systemInv_of_reachable hs
  have hlawful := h.lawful K
  constructor
  · intro b r hb
    obtain ⟨j, hj, hest⟩ := h.estimated_of_binary hb
    refine ⟨j, hj, ?_, hest⟩
    by_contra hround
    have hnone := ((h.consistent K).exec j).future r (Nat.lt_of_not_le hround)
    rw [hest] at hnone
    cases hnone
  · intro hd
    obtain ⟨b, hvalue, hdecision⟩ := h.decision_of_isDecided hi hd
    obtain ⟨⟨j, hj⟩, hest⟩ := hlawful.validity (hlawful.binary_of_decision hdecision)
    change (s.children i K).inst.decidedValue = Value.ofBool b at hvalue
    rw [hvalue]
    exact ⟨j, hj, hest⟩

theorem decided_proposed_fourNodes :
    ∃ s, (machine fourNodes).run decidingRun = some s ∧
      (s.children 1 firstKey).inst.isDecided = true ∧
      ∃ j ∈ fourNodes.correct, (s.children j firstKey).inst.proposals 0 =
        some (s.children 1 firstKey).inst.decidedValue := by
  obtain ⟨s, hrun, hd⟩ : ∃ s, (machine fourNodes).run decidingRun = some s ∧
      (s.children 1 firstKey).inst.isDecided = true :=
    Machine.exists_run (by decide +kernel)
  exact ⟨s, hrun, hd, (decided_proposed ⟨_, hrun⟩ (by decide)).2 hd⟩

end SkaleConsensus.BinConsensus
