import SkaleConsensus.Catchup.Accepted
import SkaleConsensus.Finalize.Commit
import SkaleConsensus.Schain.Delivery

/-! The random number of a block.

`getRandomForBlockId` hashes the text of the threshold signature that was saved with the
block. A block that comes through consensus has the text that libBLS prints. A block that
comes through catchup has the text that the server sent; it is checked by what libBLS reads
in it. So two nodes have one number for a block exactly when what the server sent is the text
that libBLS prints. -/
namespace SkaleConsensus.Schain
open Library Block Crypto Proposal Catchup Machine BlockReader

/-- The digits of the digest as a number. -/
def getRandomForBlockId (blake3 : Bytes → Hash) (s : Ledger) (blockId : ℕ) : Except String ℕ :=
  match s.blockDB blockId with
  | some block => pure (fromLeBytes (blake3 block.thresholdSig).reverse)
  | none => throw "State check failed::block"

/-! ### The key of the group -/

/-- libBLS with one key: `decode` is what it reads in a text, `print` is what it writes, and
for each message one point is valid. Nothing is said of how many texts there are for a
point. -/
structure GroupKey where
  Point : Type
  decode : Bytes → Option Point
  print : Point → Bytes
  decode_print : ∀ p, decode (print p) = some p
  valid : Hash → Point

namespace GroupKey
variable (key : GroupKey)

/-- What libBLS would print. -/
def Canonical (text : Bytes) : Prop := ∀ p, key.decode text = some p → key.print p = text

/-- A signature is accepted exactly when the valid point is read in it. -/
def Accepts (r : BlockReader) : Prop :=
  ∀ text blockId hash stamp,
    r.verifyThresholdSig text blockId hash stamp = true ↔ key.decode text = some (key.valid hash)

/-- The signature that correct nodes merge. -/
def merged (n : Node) (proposerIndex : SchainIndex) (blockId : ℕ) : Bytes :=
  key.print (key.valid (n.getConsensusHash proposerIndex blockId n.schainID))

theorem canonical_print (p : key.Point) : key.Canonical (key.print p) := by
  intro q hq
  rw [key.decode_print] at hq
  rw [Option.some.inj hq]

end GroupKey

/-! ### Where blocks come from -/

section Sources
variable (n : Node) (key : GroupKey) (block : CommittedBlock)

def ByConsensus : Prop :=
  ∃ node daSig, Finalize.blockCommitArrived n block.blockID block.proposerIndex
    (key.merged n block.proposerIndex block.blockID) node daSig = .ok (some block)

/-- From any server. Nobody has a signature of the group for another chain. -/
def ByCatchup : Prop :=
  block.schainID = n.schainID ∧ ∃ maxBytes response data processing tip c commits t,
    result? (sync n maxBytes response data processing tip) c = some commits ∧
      (t, block) ∈ commits.passed

/-- What a correct node is brought. -/
def Sourced (e : LedgerEvent) : Prop :=
  ∀ block, (e = .blockCommitArrived block → ByConsensus n key block) ∧
    (e = .catchup block → ByCatchup n block)

end Sources

variable {s : Ledger} {n : Node} {key : GroupKey} {block : CommittedBlock}

theorem getRandomForBlockId_of_saved {blake3 : Bytes → Hash} {b : ℕ}
    (h : s.blockDB b = some block) :
    getRandomForBlockId blake3 s b = .ok (fromLeBytes (blake3 block.thresholdSig).reverse) := by
  unfold getRandomForBlockId
  rw [h]
  rfl

theorem source_of_saved {Source : CommittedBlock → Prop} {events : List LedgerEvent} {b : ℕ}
    (hrun : ledger.run events = some s)
    (hevents : ∀ e ∈ events, ∀ block, e.Brings block → Source block)
    (hblock : s.blockDB b = some block) : block.blockID = b ∧ Source block := by
  have hinv : ∀ b block, s.blockDB b = some block → block.blockID = b ∧ Source block := by
    refine run_invariant_of_keeps (M := ledger)
      (P := fun s => ∀ b block, s.blockDB b = some block → block.blockID = b ∧ Source block)
      (C := fun e _ => ∀ block, e.Brings block → Source block) hrun
      (keeps_of_forall (fun e he _ => hevents e he) _) nofun fun e s s' hs he hstep => ?_
    cases effect_of_step hstep with
    | saved hevent =>
      intro b block hsaved
      rcases of_update_eq_some hsaved with ⟨rfl, rfl⟩ | ⟨-, hold⟩
      · exact ⟨rfl, he _ hevent⟩
      · exact hs b block hold
    | same | pushed | replayed | threw | updated | refused | stopped | started | initialized =>
      exact hs
  exact hinv b block hblock

theorem thresholdSig_of_byConsensus (h : ByConsensus n key block) :
    block.thresholdSig = key.merged n block.proposerIndex block.blockID := by
  obtain ⟨node, daSig, harrived⟩ := h
  obtain ⟨proposal, -, hmake, -⟩ := Finalize.made_of_blockCommitArrived harrived
  have h₁ := after_check hmake
  obtain ⟨text, h₂⟩ := after_bind h₁
  exact (CommittedBlock.of_make_eq_ok h₂).2.1

/-- The valid point is read in what the server sent. -/
theorem decode_of_byCatchup (haccepts : key.Accepts n.toBlockReader)
    (hreal : n.cm.verifyRealSignatures = true) (h : ByCatchup n block) :
    key.decode block.thresholdSig =
      some (key.valid (n.getConsensusHash block.proposerIndex block.blockID n.schainID)) := by
  obtain ⟨hchain, maxBytes, response, data, processing, tip, c, commits, t, hsync, hpassed⟩ := h
  obtain ⟨-, -, _, _, _, _, _, _, _, _, -, -, -, -, hread⟩ := read_of_mem_passed hsync hpassed
  obtain ⟨⟨blockData, -, hblock⟩, -⟩ := of_readBlock hread
  obtain ⟨-, hverify, -⟩ := of_deserializeBlock hblock
  unfold verifyBlockSig at hverify
  rw [hreal, Bool.not_true, Bool.false_or, hchain] at hverify
  exact (haccepts _ _ _ _).mp ((Bool.and_eq_true _ _).mp hverify).2

/-- What is saved is the signature that correct nodes merge exactly when it is canonical. -/
theorem eq_merged_iff_canonical (haccepts : key.Accepts n.toBlockReader)
    (hreal : n.cm.verifyRealSignatures = true)
    (h : ByConsensus n key block ∨ ByCatchup n block) :
    block.thresholdSig = key.merged n block.proposerIndex block.blockID ↔
      key.Canonical block.thresholdSig := by
  rcases h with hconsensus | hcatchup
  · have htext := thresholdSig_of_byConsensus hconsensus
    exact iff_of_true htext (htext ▸ key.canonical_print _)
  · have hdecode := decode_of_byCatchup haccepts hreal hcatchup
    refine ⟨fun htext => htext ▸ key.canonical_print _, fun hcanonical => ?_⟩
    exact (hcanonical _ hdecode).symm

/-- A node that has a block through consensus and one that has it through consensus or
through catchup, with the same proposer, have one number for it exactly when the second has
saved a canonical text, unless the two texts are a collision of BLAKE3. -/
theorem random_eq_iff_canonical {n₁ n₂ : Node} {events₁ events₂ : List LedgerEvent}
    {s₁ s₂ : Ledger} {b : ℕ} {x y : CommittedBlock} (haccepts : key.Accepts n₂.toBlockReader)
    (hreal : n₂.cm.verifyRealSignatures = true) (hchain : n₁.schainID = n₂.schainID)
    (hblake3 : n₁.cm.blake3 = n₂.cm.blake3)
    (hlength : ∀ text, (n₂.cm.blake3 text).length = HASH_LEN)
    (hrun₁ : ledger.run events₁ = some s₁) (hrun₂ : ledger.run events₂ = some s₂)
    (hsourced₁ : ∀ e ∈ events₁, Sourced n₁ key e) (hsourced₂ : ∀ e ∈ events₂, Sourced n₂ key e)
    (hx : s₁.blockDB b = some x) (hy : s₂.blockDB b = some y)
    (hindex : x.proposerIndex = y.proposerIndex) (hconsensus : .catchup x ∉ events₁)
    (hfree : n₂.cm.blake3 x.thresholdSig = n₂.cm.blake3 y.thresholdSig →
      x.thresholdSig = y.thresholdSig) :
    getRandomForBlockId n₁.cm.blake3 s₁ b = getRandomForBlockId n₂.cm.blake3 s₂ b ↔
      key.Canonical y.thresholdSig := by
  have hevents₁ : ∀ e ∈ events₁, ∀ block, e.Brings block →
      ByConsensus n₁ key block ∨ .catchup block ∈ events₁ := fun e he block hbrings =>
    hbrings.imp (hsourced₁ e he block).1 fun (hcatchup : e = .catchup block) => hcatchup ▸ he
  have hevents₂ : ∀ e ∈ events₂, ∀ block, e.Brings block →
      ByConsensus n₂ key block ∨ ByCatchup n₂ block := fun e he block hbrings =>
    hbrings.imp (hsourced₂ e he block).1 (hsourced₂ e he block).2
  have hxsource := source_of_saved hrun₁ hevents₁ hx
  have hysource := source_of_saved hrun₂ hevents₂ hy
  have hxtext := thresholdSig_of_byConsensus (hxsource.2.resolve_right hconsensus)
  have hmerged : key.merged n₁ x.proposerIndex x.blockID =
      key.merged n₂ y.proposerIndex y.blockID := by
    unfold GroupKey.merged getConsensusHash
    rw [hblake3, hchain, hindex, hxsource.1, hysource.1]
  rw [← eq_merged_iff_canonical haccepts hreal hysource.2, ← hmerged, ← hxtext]
  rw [getRandomForBlockId_of_saved hx, getRandomForBlockId_of_saved hy, hblake3]
  constructor
  · intro heq
    have hnumbers := Except.ok.inj heq
    have hreversed := fromLeBytes_injective (by simp only [List.length_reverse, hlength]) hnumbers
    exact (hfree (List.reverse_injective hreversed)).symm
  · intro heq
    rw [heq]

/-! ### Two texts for one point -/

/-- Leading zeros are read over. -/
def readText (text : Bytes) : Option Bool :=
  match text.dropWhile (· == 48) with
  | [116] => some true
  | [102] => some false
  | _ => none

/-- The default block is decided for block 1. -/
def decided (hash : Hash) : Bool :=
  hash == Finalize.byteSum (leBytes 8 0 ++ leBytes 8 1 ++ leBytes 8 1 ++ leBytes 4 12)

def zerosKey : GroupKey where
  Point := Bool
  decode := readText
  print p := if p then [116] else [102]
  decode_print := by decide
  valid := decided

def signedHeader (thresholdSig : Bytes) : Json :=
  .object [("proposerIndex", .number 0), ("proposerNodeID", .number 0), ("blockID", .number 1),
    ("schainID", .number 1), ("timeStamp", .number (.ofNat (MODERN_TIME + 1))),
    ("timeStampMs", .number 1), ("hash", .string (textBytes "h")),
    ("sig", .string (textBytes "EMPTY")), ("sr", .string (textBytes "0")), ("sizes", .array []),
    ("thrSig", .string thresholdSig)]

/-- The texts 1 and 2 stand for the header with the signature as it is printed, and with a
zero before it. -/
def zerosNode : Node :=
  {Node.ofFour with
    cm := {fourSigners [] [] with blake3 := Finalize.byteSum}
    json := fun text =>
      if text = [123, 49, 125] then some (signedHeader (textBytes "t"))
      else if text = [123, 50, 125] then some (signedHeader (textBytes "0t"))
      else none
    verifyThresholdSig := fun text _ hash _ => readText text == some (decided hash)
    verifyDaSigsPatchTimestampS := 1}

theorem accepts_zerosNode : zerosKey.Accepts zerosNode.toBlockReader :=
  fun _ _ _ _ => beq_iff_eq

def defaultBlock (thresholdSig : Bytes) (h : thresholdSig ≠ []) : CommittedBlock where
  schainID := 1
  proposerNodeID := 0
  blockID := 1
  proposerIndex := 0
  transactionList := []
  stateRoot := 0
  timeStamp := MODERN_TIME + 1
  timeStampMs := 1
  signature := textBytes "EMPTY"
  fits := by decide
  rootless := fun _ => rfl
  modern := Nat.lt_succ_self _
  signed := by decide
  thresholdSig
  daSig := []
  thresholdSigned := h

abbrev printedBlock : CommittedBlock := defaultBlock (textBytes "t") (by decide)

abbrev zeroBlock : CommittedBlock := defaultBlock (textBytes "0t") (by decide)

theorem byConsensus_printedBlock : ByConsensus zerosNode zerosKey printedBlock :=
  ⟨{NodeState.genesis with lastCommittedBlockTimeStamp := ⟨MODERN_TIME + 1, 0⟩}, none,
    by decide +kernel⟩

/-- A server sends the block whose header this text stands for. -/
abbrev serve (text : UInt8) : EStateM String SessionCache Commits :=
  sync zerosNode 1000
    (.object [("status", .number 1), ("sizes", .array [.number (.ofNat (served text []).length)])])
    (some ([91] ++ served text [] ++ [93])) (fun _ => none) ⟨0, ⟨MODERN_TIME + 1, 0⟩⟩

theorem byCatchup_of_served (text : UInt8) (hchain : block.schainID = 1)
    (h : ((result? (serve text) .empty).map fun commits =>
      decide (block ∈ commits.passed.map Prod.snd)) = some true) : ByCatchup zerosNode block := by
  obtain ⟨commits, hserve, hmem⟩ := Option.map_eq_some_iff.mp h
  obtain ⟨⟨t, x⟩, hpassed, hblock⟩ := List.mem_map.mp (of_decide_eq_true hmem)
  obtain rfl : x = block := hblock
  exact ⟨hchain, _, _, _, _, _, _, commits, t, hserve, hpassed⟩

theorem byCatchup_printedBlock : ByCatchup zerosNode printedBlock :=
  byCatchup_of_served 49 rfl (by decide +kernel)

theorem byCatchup_zeroBlock : ByCatchup zerosNode zeroBlock :=
  byCatchup_of_served 50 rfl (by decide +kernel)

def firstCommit (e : LedgerEvent) : List LedgerEvent :=
  [.bootstrap 0 0 0, .bootstrapped 10, e, .createBlock true, .update 20]

theorem sourced_firstCommit {e : LedgerEvent} (he : Sourced zerosNode zerosKey e) :
    ∀ e' ∈ firstCommit e, Sourced zerosNode zerosKey e' := by
  intro e' hmem
  simp only [firstCommit, List.mem_cons, List.not_mem_nil, or_false] at hmem
  rcases hmem with rfl | rfl | rfl | rfl | rfl
  · exact fun block => ⟨nofun, nofun⟩
  · exact fun block => ⟨nofun, nofun⟩
  · exact he
  · exact fun block => ⟨nofun, nofun⟩
  · exact fun block => ⟨nofun, nofun⟩

theorem sourced_consensus (h : ByConsensus n key block) :
    Sourced n key (.blockCommitArrived block) :=
  fun _ => ⟨fun heq => LedgerEvent.blockCommitArrived.inj heq ▸ h, nofun⟩

theorem sourced_catchup (h : ByCatchup n block) : Sourced n key (.catchup block) :=
  fun _ => ⟨nofun, fun heq => LedgerEvent.catchup.inj heq ▸ h⟩

theorem random_eq_iff_canonical_printedBlock :
    ∃ s₁ s₂, ledger.run (firstCommit (.blockCommitArrived printedBlock)) = some s₁ ∧
      ledger.run (firstCommit (.catchup printedBlock)) = some s₂ ∧
      s₁.blockDB 1 = some printedBlock ∧ s₂.blockDB 1 = some printedBlock ∧
      (getRandomForBlockId zerosNode.cm.blake3 s₁ 1 =
          getRandomForBlockId zerosNode.cm.blake3 s₂ 1 ↔
        zerosKey.Canonical printedBlock.thresholdSig) := by
  obtain ⟨s₁, hrun₁, hx⟩ : ∃ s, ledger.run (firstCommit (.blockCommitArrived printedBlock)) =
      some s ∧ s.blockDB 1 = some printedBlock := exists_run (by decide +kernel)
  obtain ⟨s₂, hrun₂, hy⟩ : ∃ s, ledger.run (firstCommit (.catchup printedBlock)) = some s ∧
      s.blockDB 1 = some printedBlock := exists_run (by decide +kernel)
  refine ⟨s₁, s₂, hrun₁, hrun₂, hx, hy, ?_⟩
  exact random_eq_iff_canonical accepts_zerosNode (by decide) rfl rfl
    (fun _ => length_leBytes 32 _) hrun₁ hrun₂
    (sourced_firstCommit (sourced_consensus byConsensus_printedBlock))
    (sourced_firstCommit (sourced_catchup byCatchup_printedBlock)) hx hy rfl
    (by simp [firstCommit]) fun _ => rfl

/-- A server puts a zero before the signature. -/
theorem random_ne_of_zero :
    ∃ s₁ s₂, ledger.run (firstCommit (.blockCommitArrived printedBlock)) = some s₁ ∧
      ledger.run (firstCommit (.catchup zeroBlock)) = some s₂ ∧
      zerosKey.Accepts zerosNode.toBlockReader ∧ zerosNode.cm.verifyRealSignatures = true ∧
      ByConsensus zerosNode zerosKey printedBlock ∧ ByCatchup zerosNode zeroBlock ∧
      getRandomForBlockId zerosNode.cm.blake3 s₁ 1 = .ok (116 * 256 ^ 31) ∧
      getRandomForBlockId zerosNode.cm.blake3 s₂ 1 = .ok (164 * 256 ^ 31) := by
  obtain ⟨s₁, hrun₁, hx⟩ : ∃ s, ledger.run (firstCommit (.blockCommitArrived printedBlock)) =
      some s ∧ s.blockDB 1 = some printedBlock := exists_run (by decide +kernel)
  obtain ⟨s₂, hrun₂, hy⟩ : ∃ s, ledger.run (firstCommit (.catchup zeroBlock)) = some s ∧
      s.blockDB 1 = some zeroBlock := exists_run (by decide +kernel)
  refine ⟨s₁, s₂, hrun₁, hrun₂, accepts_zerosNode, by decide, byConsensus_printedBlock,
    byCatchup_zeroBlock, ?_, ?_⟩
  · rw [getRandomForBlockId_of_saved hx]
    decide +kernel
  · rw [getRandomForBlockId_of_saved hy]
    decide +kernel

end SkaleConsensus.Schain
