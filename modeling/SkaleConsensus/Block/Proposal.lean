import SkaleConsensus.Crypto.SessionKeys

/-! Block proposals and committed blocks: what they carry and what of it is hashed.

A proposal can only be made with a modern time stamp, a signature and, for the
default proposer, a zero state root; its numbers are those of machine words. A
committed block is a proposal with the threshold signature of the chain and, unless
it is a default block, the DA signature of its hash. -/
namespace SkaleConsensus.Block
open Crypto Library

def HASH_LEN : ℕ := 32
def PARTIAL_HASH_LEN : ℕ := 8
def MODERN_TIME : ℕ := 1547640182

/-- A hasher gives digests of one length. -/
abbrev Hasher (blake3 : Bytes → Hash) : Prop := ∀ x, (blake3 x).length = HASH_LEN

/-! ### Time stamps -/

structure TimeStamp where
  s : ℕ
  ms : ℕ
deriving DecidableEq, Repr

namespace TimeStamp

/-- `operator<`. -/
def lt (a r : TimeStamp) : Bool :=
  if a.s < r.s then true else if r.s < a.s then false else decide (a.ms < r.ms)

def incrementByMs (a : TimeStamp) : TimeStamp :=
  if a.ms = 999 then ⟨(a.s + 1) % 2 ^ 64, 0⟩ else ⟨a.s, (a.ms + 1) % 2 ^ 64⟩

theorem lt_iff {a r : TimeStamp} : a.lt r = true ↔ a.s < r.s ∨ a.s = r.s ∧ a.ms < r.ms := by
  unfold lt
  grind

theorem lt_trans {a b c : TimeStamp} (hab : a.lt b = true) (hbc : b.lt c = true) :
    a.lt c = true := by
  rw [lt_iff] at *
  omega

end TimeStamp

/-! ### Transactions -/

structure Transaction where
  data : Bytes
  nonempty : data ≠ []
deriving DecidableEq, Repr

section Hashes
variable (blake3 : Bytes → Hash)

def Transaction.hash (t : Transaction) : Hash := blake3 t.data

def Transaction.partialHash (t : Transaction) : Bytes := (t.hash blake3).take PARTIAL_HASH_LEN

def merkleTreeMerge (left right : Hash) : Hash := blake3 (left ++ right)

/-- One level of the tree, computed in the vector it is read from. -/
def mergeLevel (hashes : List Hash) : List Hash :=
  (List.range (hashes.length / 2)).foldl
    (fun v j => v.set j (merkleTreeMerge blake3 (v.getD (2 * j) []) (v.getD (2 * j + 1) []))) hashes

/-- The `while` loop; each turn halves the vector, so that its length is fuel enough. -/
def merkleLoop : ℕ → List Hash → List Hash
  | 0, hashes => hashes
  | fuel + 1, hashes =>
    if 1 < hashes.length then
      let even := if hashes.length % 2 = 1 then hashes ++ [hashes.getLastD []] else hashes
      merkleLoop fuel ((mergeLevel blake3 even).take (even.length / 2))
    else hashes

def calculateTopMerkleRoot (hashes : List Hash) : Except String Hash := do
  checkState (decide (0 < hashes.length)) "hashCount() > 0"
  return (merkleLoop blake3 hashes.length hashes).headD []

/-- Boost's `export_bits`: no leading zeros, and one zero for zero. -/
def u256ToBigEndianArray (value : BitVec 256) : Bytes :=
  match (leBytes 32 value.toNat).reverse.dropWhile (· == 0) with
  | [] => [0]
  | bytes => bytes

end Hashes

def char2int (c : UInt8) : Except String UInt8 :=
  if 48 ≤ c ∧ c ≤ 57 then pure (c - 48)
  else if 65 ≤ c ∧ c ≤ 70 then pure (c - 65 + 10)
  else if 97 ≤ c ∧ c ≤ 102 then pure (c - 97 + 10)
  else throw "Invalid hex char"

/-- The loop of `cArrayFromHex`. -/
def bytesFromHex : Bytes → Except String Bytes
  | high :: low :: rest => do
    let h ← char2int high
    let l ← char2int low
    let bytes ← bytesFromHex rest
    return (h * 16 + l) :: bytes
  | _ => pure []

theorem bytesFromHex_toHex (bytes : Bytes) : bytesFromHex (toHex bytes) = .ok bytes := by
  have hbyte : ∀ b : UInt8, char2int (toHex.hexDigit (b / 16)) = .ok (b / 16) ∧
      char2int (toHex.hexDigit (b % 16)) = .ok (b % 16) ∧ b / 16 * 16 + b % 16 = b := by
    rintro ⟨x⟩
    revert x
    decide +kernel
  induction bytes with
  | nil => rfl
  | cons b rest ih =>
    obtain ⟨hhigh, hlow, hsum⟩ := hbyte b
    have hcons : toHex (b :: rest) =
        toHex.hexDigit (b / 16) :: toHex.hexDigit (b % 16) :: toHex rest := rfl
    rw [hcons, bytesFromHex, hhigh, hlow, ih]
    show Except.ok ((b / 16 * 16 + b % 16) :: rest) = _
    rw [hsum]

theorem toHex_injective {a b : Bytes} (h : toHex a = toHex b) : a = b := by
  have hok : (.ok a : Except String Bytes) = .ok b := by
    rw [← bytesFromHex_toHex, h, bytesFromHex_toHex]
  exact Except.ok.inj hok

/-- `BLAKE3Hash::fromHex`. -/
def fromHex (hex : Bytes) : Except String Hash := do
  checkArgument (!hex.isEmpty) "_hex != \"\""
  checkArgument (hex.length % 2 == 0) "_hex.size() % 2 == 0"
  checkArgument (hex.length / 2 == HASH_LEN) "_hex.size() / 2 == len"
  bytesFromHex hex

/-! ### Proposals -/

/-- The arguments of the constructor of `BlockProposal`. -/
structure ProposalFields where
  schainID : SchainID
  proposerNodeID : NodeID
  blockID : ℕ
  proposerIndex : SchainIndex
  transactionList : List Transaction
  stateRoot : BitVec 256
  timeStamp : ℕ
  timeStampMs : ℕ
  signature : Bytes
deriving DecidableEq, Repr

namespace ProposalFields
variable (a : ProposalFields)

/-- The numbers are `uint64_t`, the milliseconds `uint32_t`. -/
def Fits : Prop :=
  a.schainID < 2 ^ 64 ∧ a.proposerNodeID < 2 ^ 64 ∧ a.blockID < 2 ^ 64 ∧
    a.proposerIndex < 2 ^ 64 ∧ a.transactionList.length < 2 ^ 64 ∧ a.timeStamp < 2 ^ 64 ∧
    a.timeStampMs < 2 ^ 32

instance : Decidable a.Fits := inferInstanceAs (Decidable (_ ∧ _))

/-- What `calculateHash` feeds the hasher. -/
def hashInput (blake3 : Bytes → Hash) : Bytes :=
  leBytes 8 a.proposerIndex ++ leBytes 8 a.proposerNodeID ++ leBytes 8 a.schainID ++
    leBytes 8 a.blockID ++ leBytes 8 a.transactionList.length ++ leBytes 8 a.timeStamp ++
    leBytes 4 a.timeStampMs ++ leBytes 4 a.transactionList.length ++
    toHex (u256ToBigEndianArray a.stateRoot) ++
    match calculateTopMerkleRoot blake3 (a.transactionList.map (Transaction.hash blake3)) with
    | .ok root => root
    | .error _ => []

def hash (blake3 : Bytes → Hash) : Hash := blake3 (a.hashInput blake3)

/-- A default block has no state root. -/
def rooted : ProposalFields :=
  {a with stateRoot := if a.proposerIndex = 0 then 0 else a.stateRoot}

theorem blockID_eq_of_hashInput {a b : ProposalFields} {blake3 : Bytes → Hash}
    (ha : a.Fits) (hb : b.Fits) (h : a.hashInput blake3 = b.hashInput blake3) :
    a.blockID = b.blockID := by
  obtain ⟨-, -, hablock, -⟩ := ha
  obtain ⟨-, -, hbblock, -⟩ := hb
  have hpart : ∀ c : ProposalFields,
      ((c.hashInput blake3).drop 24).take 8 = leBytes 8 c.blockID := by
    intro c
    unfold hashInput
    simp only [List.append_assoc]
    have hskip : ∀ (x : ℕ) (l : Bytes), (leBytes 8 x ++ l).drop 8 = l :=
      fun x l => List.drop_left' (length_leBytes 8 x)
    have hdrop : ∀ l : Bytes, l.drop 24 = ((l.drop 8).drop 8).drop 8 := fun l => by
      rw [List.drop_drop, List.drop_drop]
    rw [hdrop, hskip, hskip, hskip, List.take_left' (length_leBytes 8 _)]
  refine leBytes_injective (w := 8) hablock hbblock ?_
  rw [← hpart a, ← hpart b, h]

end ProposalFields

structure BlockProposal extends ProposalFields where
  fits : toProposalFields.Fits
  rootless : proposerIndex = 0 → stateRoot = 0
  modern : MODERN_TIME < timeStamp
  signed : signature ≠ []
deriving DecidableEq, Repr

def seven : Transaction := ⟨[7], List.cons_ne_nil _ _⟩

namespace BlockProposal

/-- A proposal of the second node for the first block, without transactions or state root. -/
def first : BlockProposal where
  schainID := 1
  proposerNodeID := 12
  blockID := 1
  proposerIndex := 2
  transactionList := []
  stateRoot := 0
  timeStamp := MODERN_TIME + 1
  timeStampMs := 0
  signature := textBytes "sig"
  fits := by decide
  rootless := fun _ => rfl
  modern := Nat.lt_succ_self _
  signed := by decide

/-- The constructor, for a proposal that comes with its signature. -/
def make (a : ProposalFields) : Except String BlockProposal :=
  if hfits : a.Fits then
    if hmodern : MODERN_TIME < a.timeStamp then
      if hsigned : a.signature ≠ [] then
        pure ⟨a.rooted, hfits, fun h => if_pos h, hmodern, hsigned⟩
      else throw "Argument Check failed:_signature != \"\""
    else throw "State check failed::timeStamp > MODERN_TIME"
  else throw "not machine words"

theorem of_make_eq_ok {a : ProposalFields} {p : BlockProposal} (h : make a = .ok p) :
    p.toProposalFields = a.rooted := by
  unfold make at h
  split_ifs at h
  cases h
  rfl

/-- A proposal is what the constructor makes of its own fields. -/
theorem make_eq_ok_iff {a : ProposalFields} {p : BlockProposal} :
    make a = .ok p ↔ p.toProposalFields = a.rooted := by
  refine ⟨of_make_eq_ok, fun h => ?_⟩
  obtain ⟨fields, hfits, hrootless, hmodern, hsigned⟩ := p
  subst h
  exact (dif_pos (c := a.Fits) hfits).trans
    ((dif_pos (c := MODERN_TIME < a.timeStamp) hmodern).trans
      (dif_pos (c := a.signature ≠ []) hsigned))

/-- The constructor of `ReceivedBlockProposal` for a default block, as
`createDefaultEmptyBlockProposal` calls it after a block with time stamp `last`. The
milliseconds are passed on as a `uint32_t`. -/
def createDefaultEmpty (schainID : SchainID) (last : TimeStamp) (blockId : ℕ) :
    Except String BlockProposal :=
  make {
    schainID, proposerNodeID := 0, blockID := blockId, proposerIndex := 0, transactionList := [],
    stateRoot := 0, timeStamp := last.incrementByMs.s,
    timeStampMs := last.incrementByMs.ms % 2 ^ 32, signature := textBytes "EMPTY" }

variable (p : BlockProposal)

theorem rooted_eq : p.toProposalFields.rooted = p.toProposalFields := by
  unfold ProposalFields.rooted
  split_ifs with h
  · rw [← p.rootless h]
  · rfl

def getTimeStamp : TimeStamp := ⟨p.timeStamp, p.timeStampMs⟩

/-- `CryptoManager::verifyProposalECDSA`. -/
def verifyProposalECDSA (cm : CryptoManager) (hashStr signature : Bytes) : Except String Unit := do
  checkArgument (!hashStr.isEmpty) "_hashStr != \"\""
  checkArgument (!signature.isEmpty) "_signature != \"\""
  checkState (p.proposerIndex != 0) "_proposal->getProposerIndex() != 0"
  if toHex (p.hash cm.blake3) != hashStr then throw "Check failed::Incorrect proposal hash"
  if cm.verifyECDSASig (p.hash cm.blake3) signature p.proposerNodeID p.timeStamp then pure ()
  else throw "verifyProposalECDSA"

variable {p}

theorem verifyProposalECDSA_eq_ok {cm : CryptoManager} {hashStr signature : Bytes}
    (hindex : p.proposerIndex ≠ 0) (hhash : toHex (p.hash cm.blake3) = hashStr)
    (hhashStr : hashStr ≠ []) (hsignature : signature ≠ [])
    (hverify : cm.verifyECDSASig (p.hash cm.blake3) signature p.proposerNodeID p.timeStamp = true) :
    p.verifyProposalECDSA cm hashStr signature = .ok () := by
  unfold verifyProposalECDSA
  rw [hhash, hverify, bne_self_eq_false]
  refine checkArgument_bind_eq_ok.mpr ⟨not_isEmpty hhashStr, ?_⟩
  refine checkArgument_bind_eq_ok.mpr ⟨not_isEmpty hsignature, ?_⟩
  exact checkState_bind_eq_ok.mpr ⟨bne_iff_ne.mpr hindex, rfl⟩

theorem toHex_hash_of_verifyProposalECDSA {cm : CryptoManager} {hashStr signature : Bytes}
    {u : Unit} (h : p.verifyProposalECDSA cm hashStr signature = .ok u) :
    toHex (p.hash cm.blake3) = hashStr := by
  unfold verifyProposalECDSA at h
  have h₃ := after_check (after_check (after_check h))
  cases hne : toHex (p.hash cm.blake3) != hashStr with
  | false => simpa using hne
  | true =>
    rw [hne] at h₃
    cases h₃

end BlockProposal

/-! ### Committed blocks -/

structure CommittedBlock extends BlockProposal where
  thresholdSig : Bytes
  daSig : Bytes
  thresholdSigned : thresholdSig ≠ []
deriving DecidableEq, Repr

namespace CommittedBlock

def make (a : ProposalFields) (thresholdSig daSig : Bytes) : Except String CommittedBlock := do
  checkArgument (!a.signature.isEmpty) "!_signature.empty()"
  if h : thresholdSig ≠ [] then
    let p ← BlockProposal.make a
    return ⟨p, thresholdSig, daSig, h⟩
  else throw "Argument Check failed:!_thresholdSig.empty()"

theorem of_make_eq_ok {a : ProposalFields} {thresholdSig daSig : Bytes} {block : CommittedBlock}
    (h : make a thresholdSig daSig = .ok block) :
    BlockProposal.make a = .ok block.toBlockProposal ∧ block.thresholdSig = thresholdSig ∧
      block.daSig = daSig := by
  unfold make at h
  have hrest := after_check h
  split_ifs at hrest
  obtain ⟨p, hp, hreturn⟩ := bind_eq_ok.mp hrest
  cases hreturn
  exact ⟨hp, rfl, rfl⟩

def isLegacy (block : CommittedBlock) : Bool := block.daSig.isEmpty

end CommittedBlock

end SkaleConsensus.Block
