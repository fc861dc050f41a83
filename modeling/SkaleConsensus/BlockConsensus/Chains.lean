import SkaleConsensus.BinConsensus.Safety
import SkaleConsensus.BlockConsensus.Decision
import SkaleConsensus.Library.ReplicatedLogs

/-! The chains of the nodes.

Every node runs a binary consensus on each proposer of a block. Their decisions are reported to
its agent, which decides on a proposer and signs the block, and a block that enough nodes have
signed is committed, by the node itself or with catchup. The order the agent looks at the
proposers in comes from the block before. So two nodes sign the same proposer if they have the
same chain, and they have the same chain if all before it signed the same proposers: one induction
over the height proves both.

Every node takes that order from the hash of its own last block. That the blocks of two nodes for
one height and proposer have one hash (`OneBlock`) is an assumption of the results on agreement:
the threshold signature is for the proposer only. No node restarts here, and a node has one binary
consensus for a block and a proposer as long as it runs: `getChild` makes no second one. -/
namespace SkaleConsensus.BlockConsensus
open Library BinConsensus

structure ChainBlock where
  proposer : SchainIndex
  hash : Hash
deriving DecidableEq

structure Chains where
  binary : System
  signed : SchainIndex → List (ℕ × SchainIndex)
  /-- The committed blocks of a node, the first block first. -/
  chain : SchainIndex → List ChainBlock

namespace Chains

def start : Chains := ⟨.start, fun _ => [], fun _ => []⟩

def Decided (s : Chains) (i : SchainIndex) (K : ProtocolKey) (v : Bool) : Prop :=
  (s.binary.view K i).inst.isDecided = true ∧ (s.binary.view K i).inst.decidedValue.toBool = v

instance decidableDecided (s : Chains) (i : SchainIndex) (K : ProtocolKey) (v : Bool) :
    Decidable (s.Decided i K v) :=
  inferInstanceAs (Decidable (_ ∧ _))

/-- These nodes made the threshold signature of a block. -/
def Certified (D : Deployment) (s : Chains) (signers : Finset SchainIndex) (b : ℕ)
    (p : SchainIndex) : Prop :=
  signers ⊆ D.nodes ∧ getRequiredSigners D.nodeCount ≤ signers.card ∧
    ∀ k ∈ signers, k ∈ D.correct → (b, p) ∈ s.signed k

instance decidableCertified (D : Deployment) (s : Chains) (signers : Finset SchainIndex) (b : ℕ)
    (p : SchainIndex) : Decidable (s.Certified D signers b p) :=
  inferInstanceAs (Decidable (_ ∧ _ ∧ ∀ k ∈ signers, _ → _))

/-- The hash of a node's own last block. -/
def lastHash (chain : List ChainBlock) : Hash := (chain.getLast?.map (·.hash)).getD []

end Chains

inductive ChainEvent (n : ℕ) where
  /-- A step of the binary consensuses. -/
  | binary (event : Event)
  /-- Children of a node report on a block: in any order, to an agent that may hold anything of
  other blocks. -/
  | decide (i : SchainIndex) (b : ℕ) (previousHash : Hash) (decisions : SchainIndex → Bool)
      (run : DecisionRun n b previousHash decisions)
  /-- The block may have any hash. -/
  | commit (i : SchainIndex) (block : ChainBlock) (signers : Finset SchainIndex)

def chainStep (D : Deployment) : ChainEvent D.nodeCount → Chains → Option Chains
  | .binary event, s => (step D event s.binary).map fun binary => {s with binary}
  | .decide i b previousHash _ run, s =>
    if i ∈ D.correct ∧ b = (s.chain i).length + 1 ∧ previousHash = Chains.lastHash (s.chain i) ∧
        ∀ m ∈ run.reports, s.Decided i ⟨b, m.blockProposerIndex⟩ m.value.toBool then
      let signed := s.signed i ++ run.signed.filter fun pair => pair.1 = b
      some {s with signed := Function.update s.signed i signed}
    else none
  | .commit i block signers, s =>
    if i ∈ D.correct ∧ s.Certified D signers ((s.chain i).length + 1) block.proposer then
      some {s with chain := Function.update s.chain i (s.chain i ++ [block])}
    else none

def chains (D : Deployment) : Machine Chains (ChainEvent D.nodeCount) := ⟨.start, chainStep D⟩

namespace Chains
variable {D : Deployment} {s s' : Chains}

/-! ### What is behind a signature -/

/-- The proposer that block `b` after a chain goes to, if its children decide like this. -/
def winner (D : Deployment) (chain : List ChainBlock) (b : ℕ) (answer : SchainIndex → Bool) :
    SchainIndex :=
  firstProposer D.nodeCount (seedOf b (lastHash (chain.take (b - 1)))) answer

/-- Whatever the children that are undecided will decide, the block goes to `p`. -/
def Verdict (D : Deployment) (s : Chains) (i : SchainIndex) (b : ℕ) (p : SchainIndex) : Prop :=
  b ≤ (s.chain i).length + 1 ∧ ∀ answer : SchainIndex → Bool,
    (∀ m ∈ D.nodes, ∀ v, s.Decided i ⟨b, m⟩ v → answer m = v) →
      p = winner D (s.chain i) b answer

/-- Decisions, signatures and chains only grow. -/
structure Grown (s s' : Chains) : Prop where
  decided : ∀ i K v, s.Decided i K v → s'.Decided i K v
  signed : ∀ i, s.signed i ⊆ s'.signed i
  chain : ∀ i, s.chain i <+: s'.chain i

theorem Verdict.mono {i : SchainIndex} {b : ℕ} {p : SchainIndex}
    (h : Verdict D s i b p) (hg : Grown s s') : Verdict D s' i b p := by
  obtain ⟨hle, hp⟩ := h
  obtain ⟨rest, hrest⟩ := hg.chain i
  refine ⟨hle.trans (Nat.succ_le_succ (hg.chain i).length_le), fun answer hanswer => ?_⟩
  rw [hp answer fun m hm v hv => hanswer m hm v (hg.decided i _ v hv), winner, winner, ← hrest,
    List.take_append_of_le_length (Nat.sub_le_of_le_add hle)]

/-- Blocks of correct nodes for one height and proposer have one hash. -/
def OneBlock (D : Deployment) (s : Chains) : Prop :=
  ∀ i ∈ D.correct, ∀ j ∈ D.correct, ∀ (m : ℕ) (x y : ChainBlock), (s.chain i)[m]? = some x →
    (s.chain j)[m]? = some y → x.proposer = y.proposer → x.hash = y.hash

structure Inv (D : Deployment) (s : Chains) : Prop where
  binary : (machine D).Reachable s.binary
  signed : ∀ i, ∀ pair ∈ s.signed i, Verdict D s i pair.1 pair.2
  chain : ∀ i m x, (s.chain i)[m]? = some x → ∃ signers, s.Certified D signers (m + 1) x.proposer

namespace Inv

/-- A step adds verdicts to the signatures, and certified blocks to the chains. -/
theorem of_grown (h : Inv D s) (hg : Grown s s') (hbinary : (machine D).Reachable s'.binary)
    (hsigned : ∀ i, ∀ pair ∈ s'.signed i, pair ∈ s.signed i ∨
      Verdict D s i pair.1 pair.2)
    (hchain : ∀ i m x, (s'.chain i)[m]? = some x → (s.chain i)[m]? = some x ∨
      ∃ signers, s.Certified D signers (m + 1) x.proposer) : Inv D s' := by
  refine ⟨hbinary, fun i pair hpair => ?_, fun i m x hx => ?_⟩
  · exact ((hsigned i pair hpair).elim (h.signed i pair) id).mono hg
  · obtain ⟨signers, hnodes, hcard, hall⟩ := (hchain i m x hx).elim (h.chain i m x) id
    exact ⟨signers, hnodes, hcard, fun k hk hcorrect => hg.signed k (hall k hk hcorrect)⟩

theorem binaryStep (h : Inv D s) {event : Event} {t : System}
    (hstep : step D event s.binary = some t) : Inv D {s with binary := t} := by
  have hinv := systemInv_of_reachable h.binary
  have hgrows : ∀ K i, Grows (s.binary.view K i) (t.view K i) := by
    intro K i
    rcases step_cases hstep with ⟨j, L, b, -, hj, hown, rfl⟩ | ⟨j, me, -, -, -, -, rfl⟩ |
      ⟨j, me, rest, -, hj, hqueue, rfl⟩
    · have hme : Handed D s.binary j (proposalEnvelope j L b) := ⟨hj, nofun, fun _ => hown⟩
      exact hinv.deliver_grows hme K i
    · exact .refl _
    · exact hinv.deliver_grows (hinv.handed_head hj hqueue) K i
  refine h.of_grown ⟨fun i K v hv => ?_, fun _ => List.Subset.refl _, fun _ => List.prefix_rfl⟩ ?_
    (fun _ _ => .inl) (fun _ _ _ => .inl)
  · obtain ⟨hdecided, hvalue, -⟩ := (hgrows K i).decided hv.1
    exact ⟨hdecided, (congrArg Value.toBool hvalue).trans hv.2⟩
  · obtain ⟨events, hrun⟩ := h.binary
    refine ⟨events ++ [event], ?_⟩
    unfold Machine.run at hrun ⊢
    rw [Machine.runFrom_append, hrun]
    simp [Machine.runFrom, machine, hstep]

variable {i : SchainIndex}

/-- A run of the agent with these reports signs what they call for. -/
theorem decideStep (h : Inv D s) {decisions : SchainIndex → Bool}
    (run : DecisionRun D.nodeCount ((s.chain i).length + 1) (lastHash (s.chain i)) decisions)
    (hreports : ∀ m ∈ run.reports,
      s.Decided i ⟨(s.chain i).length + 1, m.blockProposerIndex⟩ m.value.toBool) :
    let signed := s.signed i ++ run.signed.filter fun pair => pair.1 = (s.chain i).length + 1
    Inv D {s with signed := Function.update s.signed i signed} := by
  refine h.of_grown ⟨fun _ _ _ hv => hv, ?_, fun _ => List.prefix_rfl⟩ h.binary ?_
    (fun _ _ _ => .inl)
  · exact (Function.forall_update_iff s.signed (p := fun k l => s.signed k ⊆ l)).mpr
      ⟨List.subset_append_left _ _, fun _ _ => List.Subset.refl _⟩
  · refine (Function.forall_update_iff s.signed (p := fun k l => ∀ pair ∈ l,
      pair ∈ s.signed k ∨ Verdict D s k pair.1 pair.2)).mpr ⟨?_, fun _ _ _ => .inl⟩
    rintro ⟨b, p⟩ hpair
    rcases List.mem_append.mp hpair with hold | hnew
    · exact .inl hold
    · obtain ⟨hmem, hb⟩ := List.mem_filter.mp hnew
      obtain rfl : b = (s.chain i).length + 1 := of_decide_eq_true hb
      refine .inr ⟨le_rfl, fun answer hanswer => ?_⟩
      -- the reports are those of a run in which the other children decide like `answer`
      have hwinner := DecisionRun.eq_firstProposer_of_mem_signed
        {run with value := fun m hm => (hanswer _ (run.ofChild m hm) _ (hreports m hm)).symm}
        (Nat.zero_lt_of_lt D.byzantine_lt_third) hmem
      rw [hwinner, winner, Nat.add_sub_cancel, List.take_length]

theorem commitStep (h : Inv D s) {block : ChainBlock} {signers : Finset SchainIndex}
    (hblock : s.Certified D signers ((s.chain i).length + 1) block.proposer) :
    Inv D {s with chain := Function.update s.chain i (s.chain i ++ [block])} := by
  refine h.of_grown ⟨fun _ _ _ hv => hv, fun _ => List.Subset.refl _, ?_⟩ h.binary
    (fun _ _ => .inl) ?_
  · exact (Function.forall_update_iff s.chain (p := fun k l => s.chain k <+: l)).mpr
      ⟨List.prefix_append _ _, fun _ _ => List.prefix_rfl⟩
  · refine (Function.forall_update_iff s.chain (p := fun k l => ∀ m x, l[m]? = some x →
      (s.chain k)[m]? = some x ∨ ∃ signers, s.Certified D signers (m + 1) x.proposer)).mpr
      ⟨fun m x hx => ?_, fun _ _ _ _ => .inl⟩
    rcases Nat.lt_trichotomy m (s.chain i).length with hm | rfl | hm
    · exact .inl (List.getElem?_append_left hm ▸ hx)
    · rw [List.getElem?_concat_length] at hx
      exact .inr ⟨signers, Option.some.inj hx ▸ hblock⟩
    · rw [List.getElem?_eq_none (by simpa [Nat.succ_le_iff] using hm)] at hx
      cases hx

theorem step (h : Inv D s) {event : ChainEvent D.nodeCount}
    (hstep : chainStep D event s = some s') : Inv D s' := by
  cases event with
  | binary event =>
    obtain ⟨t, ht, rfl⟩ := Option.map_eq_some_iff.mp hstep
    exact h.binaryStep ht
  | decide i b previousHash decisions run =>
    dsimp only [chainStep] at hstep
    split_ifs at hstep with hguard
    obtain ⟨-, rfl, rfl, hreports⟩ := hguard
    cases hstep
    exact h.decideStep run hreports
  | commit i block signers =>
    dsimp only [chainStep] at hstep
    split_ifs at hstep with hguard
    cases hstep
    exact h.commitStep hguard.2

/-! ### Agreement -/

theorem decided_eq (h : Inv D s) {K : ProtocolKey} (hrandom : SameRandom D K s.binary)
    {j : SchainIndex} (hi : i ∈ D.correct) (hj : j ∈ D.correct) {v w : Bool} (hv : s.Decided i K v)
    (hw : s.Decided j K w) : v = w := by
  have hinv := systemInv_of_reachable h.binary
  obtain ⟨b, hb, hdecision⟩ := hinv.decision_of_isDecided hi hv.1
  obtain ⟨b', hb', hdecision'⟩ := hinv.decision_of_isDecided hj hw.1
  rw [← hv.2, ← hw.2, hb, hb',
    (hinv.lawful K).agreement (hinv.unique hrandom) hdecision hdecision']

/-- Two nodes with the same blocks before `b` sign the same. -/
theorem signed_eq (h : Inv D s) {b : ℕ} (hrandom : ∀ m ∈ D.nodes, SameRandom D ⟨b, m⟩ s.binary)
    {j : SchainIndex} (hi : i ∈ D.correct) (hj : j ∈ D.correct)
    (hagree : AgreeUpTo (fun i : {i // i ∈ D.correct} => s.chain i) (b - 1)) {p q : SchainIndex}
    (hp : (b, p) ∈ s.signed i) (hq : (b, q) ∈ s.signed j) : p = q := by
  classical
  obtain ⟨hle, hp⟩ : Verdict D s i b p := h.signed i _ hp
  obtain ⟨hle', hq⟩ : Verdict D s j b q := h.signed j _ hq
  have hanswer : ∀ k ∈ D.correct, ∀ m ∈ D.nodes, ∀ v, s.Decided k ⟨b, m⟩ v →
      decide (∃ l ∈ D.correct, s.Decided l ⟨b, m⟩ true) = v := by
    intro k hk m hm v hv
    cases v with
    | true => exact decide_eq_true ⟨k, hk, hv⟩
    | false =>
      refine decide_eq_false fun ⟨l, hl, htrue⟩ => ?_
      exact Bool.noConfusion (h.decided_eq (hrandom m hm) hl hk htrue hv)
  rw [hp _ (hanswer i hi), hq _ (hanswer j hj), winner, winner,
    hagree ⟨i, hi⟩ ⟨j, hj⟩ (Nat.sub_le_of_le_add hle) (Nat.sub_le_of_le_add hle')]

/-- A node signs the default block or one that its own child is for. -/
theorem decided_of_signed (h : Inv D s) {k : SchainIndex} {b : ℕ} {p : SchainIndex}
    (hp : (b, p) ∈ s.signed k) (hne : p ≠ 0) : s.Decided k ⟨b, p⟩ true := by
  -- no other child that is undecided will say yes
  have hwinner := (h.signed k _ hp).2 (fun l => decide (s.Decided k ⟨b, l⟩ true)) fun l _ v hv => by
    cases v with
    | true => exact decide_eq_true hv
    | false => exact decide_eq_false fun htrue => Bool.noConfusion (htrue.2.symm.trans hv.2)
  unfold winner firstProposer at hwinner
  cases hfind : (proposerOrder D.nodeCount _).find? _ with
  | none =>
    rw [hfind] at hwinner
    exact absurd hwinner hne
  | some q =>
    rw [hfind] at hwinner
    obtain rfl : p = q := hwinner
    have hyes := List.find?_some hfind
    exact of_decide_eq_true hyes

/-- A committed block was signed by a correct node. -/
theorem exists_signed (h : Inv D s) {m : ℕ} {x : ChainBlock} (hx : (s.chain i)[m]? = some x) :
    ∃ k ∈ D.correct, (m + 1, x.proposer) ∈ s.signed k := by
  obtain ⟨signers, hnodes, hcard, hall⟩ := h.chain i m x hx
  obtain ⟨k, hk, hbyz⟩ :=
    Quorum.exists_correct ((lt_getRequiredSigners D.byzantine_lt_third).trans_le hcard)
  have hcorrect := Deployment.mem_correct_of_notMem (hnodes hk) hbyz
  exact ⟨k, hcorrect, hall k hk hcorrect⟩

theorem agreeUpTo (h : Inv D s) (hone : OneBlock D s) {n : ℕ}
    (hrandom : ∀ b ≤ n, ∀ m ∈ D.nodes, SameRandom D ⟨b, m⟩ s.binary) {m : ℕ} (hm : m ≤ n) :
    AgreeUpTo (fun i : {i // i ∈ D.correct} => s.chain i) m := by
  refine agreeUpTo_of_next (fun m hm hagree i j x y hx hy => ?_) hm
  obtain ⟨k, hk, hsigned⟩ := h.exists_signed hx
  obtain ⟨l, hl, hsigned'⟩ := h.exists_signed hy
  have hproposer := h.signed_eq (hrandom (m + 1) hm) hk hl hagree hsigned hsigned'
  have hhash := hone i i.2 j j.2 m x y hx hy hproposer
  obtain ⟨p, hash⟩ := x
  obtain ⟨q, hash'⟩ := y
  congr

end Inv

theorem inv_of_reachable (h : (chains D).Reachable s) : Inv D s := by
  refine h.invariant ⟨⟨[], rfl⟩, fun _ _ h => absurd h List.not_mem_nil, nofun⟩ ?_
  exact fun _ _ _ hs hstep => hs.step hstep

/-- Of the chains of two correct nodes one is the beginning of the other. -/
theorem chains_agree (hs : (chains D).Reachable s) (hone : OneBlock D s) {i j : SchainIndex}
    (hi : i ∈ D.correct) (hj : j ∈ D.correct)
    (hrandom : ∀ b ≤ (s.chain i).length, ∀ m ∈ D.nodes, SameRandom D ⟨b, m⟩ s.binary) :
    s.chain i <+: s.chain j ∨ s.chain j <+: s.chain i :=
  prefix_or_prefix_of_agreeUpTo (i := ⟨i, hi⟩)
    (fun _ hm => (inv_of_reachable hs).agreeUpTo hone hrandom hm) ⟨j, hj⟩

/-- No two correct nodes sign different proposers for a block, committed or not. -/
theorem signed_agree (hs : (chains D).Reachable s) (hone : OneBlock D s) {i j : SchainIndex}
    (hi : i ∈ D.correct) (hj : j ∈ D.correct) {b : ℕ}
    (hrandom : ∀ b' ≤ b, ∀ m ∈ D.nodes, SameRandom D ⟨b', m⟩ s.binary) {p q : SchainIndex}
    (hp : (b, p) ∈ s.signed i) (hq : (b, q) ∈ s.signed j) : p = q := by
  have h := inv_of_reachable hs
  exact h.signed_eq (hrandom b le_rfl) hi hj (h.agreeUpTo hone hrandom (Nat.sub_le b 1)) hp hq

/-- A committed proposal was voted for by a correct node. -/
theorem committed_proposed (hs : (chains D).Reachable s) {i : SchainIndex} {m : ℕ}
    {x : ChainBlock} (hx : (s.chain i)[m]? = some x) (hne : x.proposer ≠ 0) :
    ∃ j ∈ D.correct, (s.binary.children j ⟨m + 1, x.proposer⟩).inst.proposals 0 =
      some (Value.ofBool true) := by
  have h := inv_of_reachable hs
  have hinv := systemInv_of_reachable h.binary
  obtain ⟨k, hk, hsigned⟩ := h.exists_signed hx
  obtain ⟨hdecided, htrue⟩ := h.decided_of_signed hsigned hne
  obtain ⟨b, hb, hdecision⟩ := hinv.decision_of_isDecided hk hdecided
  have hlawful := hinv.lawful ⟨m + 1, x.proposer⟩
  obtain ⟨⟨j, hj⟩, hest⟩ := hlawful.validity (hlawful.binary_of_decision hdecision)
  rw [hb, Value.toBool_ofBool] at htrue
  exact ⟨j, hj, htrue ▸ hest⟩

/-! Nodes 1 and 2 decide on the second proposer of block 1, and node 3 catches up. -/

/-- Both hear each other's vote and that of node 4. -/
def secondVotes : List Event :=
  let hear (msgType : MsgType) : List Event :=
    [(1, 2), (1, 4), (2, 1), (2, 4)].flatMap fun (j, i) =>
      [.post j ⟨.network, ⟨msgType, 1, 2, 0, 1, none⟩, i⟩, .process j]
  [.propose 1 ⟨1, 2⟩ true, .propose 2 ⟨1, 2⟩ true] ++ hear .bvBroadcast ++ hear .auxBroadcast

/-- The order starts at 2, so that its own report is enough. -/
def secondReport : DecisionRun 4 1 [] fun i => i == 2 :=
  {fourReports with
    reports := [⟨1, 2, 1, 0, 0, 0⟩]
    ofBlock := by decide
    ofChild := by decide
    value := by decide
    once := by decide}

def secondCommitted : List (ChainEvent fourNodes.nodeCount) :=
  secondVotes.map .binary ++
    [.decide 1 1 [] _ secondReport, .decide 2 1 [] _ secondReport, .commit 1 ⟨2, [7]⟩ {1, 2, 4},
      .commit 3 ⟨2, [7]⟩ {1, 2, 4}]

theorem exists_run_secondCommitted :
    ∃ s, (chains fourNodes).run secondCommitted = some s ∧
      (s.chain 1 = [⟨2, [7]⟩] ∧ s.chain 2 = [] ∧ s.chain 3 = [⟨2, [7]⟩]) ∧
      (1, 2) ∈ s.signed 1 ∧ (1, 2) ∈ s.signed 2 ∧
      ∀ b ≤ 1, ∀ m ∈ fourNodes.nodes, SameRandom fourNodes ⟨b, m⟩ s.binary :=
  Machine.exists_run (by decide +kernel)

theorem oneBlock_of_chain {s : Chains}
    (h : s.chain 1 = [⟨2, [7]⟩] ∧ s.chain 2 = [] ∧ s.chain 3 = [⟨2, [7]⟩]) :
    OneBlock fourNodes s := by
  have hcorrect : ∀ i ∈ fourNodes.correct, i = 1 ∨ i = 2 ∨ i = 3 := by decide
  have hhash : ∀ i ∈ fourNodes.correct, ∀ x ∈ s.chain i, x.hash = [7] := by
    intro i hi x hx
    obtain ⟨h1, h2, h3⟩ := h
    rcases hcorrect i hi with rfl | rfl | rfl <;> simp_all
  intro i hi j hj m x y hx hy _
  rw [hhash i hi x (List.mem_of_getElem? hx), hhash j hj y (List.mem_of_getElem? hy)]

theorem chains_agree_secondCommitted :
    ∃ s, (chains fourNodes).run secondCommitted = some s ∧ s.chain 1 = [⟨2, [7]⟩] ∧
      (s.chain 1 <+: s.chain 3 ∨ s.chain 3 <+: s.chain 1) := by
  obtain ⟨s, hrun, hchain, -, -, hrandom⟩ := exists_run_secondCommitted
  have hlength : (s.chain 1).length = 1 := congrArg List.length hchain.1
  exact ⟨s, hrun, hchain.1, chains_agree ⟨_, hrun⟩ (oneBlock_of_chain hchain) (by decide)
    (by decide) (hlength.symm ▸ hrandom)⟩

theorem signed_agree_secondCommitted :
    ∃ s, (chains fourNodes).run secondCommitted = some s ∧ (1, 2) ∈ s.signed 2 ∧
      ∀ q, (1, q) ∈ s.signed 2 → q = 2 := by
  obtain ⟨s, hrun, hchain, hone, htwo, hrandom⟩ := exists_run_secondCommitted
  exact ⟨s, hrun, htwo, fun q hq => signed_agree ⟨_, hrun⟩ (oneBlock_of_chain hchain) (by decide)
    (by decide) hrandom hq hone⟩

theorem committed_proposed_secondCommitted :
    ∃ s, (chains fourNodes).run secondCommitted = some s ∧ ∃ j ∈ fourNodes.correct,
      (s.binary.children j ⟨1, 2⟩).inst.proposals 0 = some (Value.ofBool true) := by
  obtain ⟨s, hrun, hchain, -⟩ := exists_run_secondCommitted
  refine ⟨s, hrun, committed_proposed ⟨_, hrun⟩ (i := 1) (m := 0) (x := ⟨2, [7]⟩) ?_ (by decide)⟩
  rw [hchain.1]
  rfl

end Chains

end SkaleConsensus.BlockConsensus
