import Mathlib.Algebra.Group.Int.Defs
import Mathlib.Algebra.GroupWithZero.Nat
import Mathlib.Data.Finset.Card

/-! The vocabulary every component shares: the strong typedefs of the source,
the constants they are compared with, the bytes a hash is fed and the check that
throws. Identifiers and counters are naturals; a value read from the wire is cut
to its width where the source cuts it. -/
namespace SkaleConsensus

/-- `schain_index`: the nodes of a chain are numbered from one; zero is the
proposer of a default block. -/
abbrev SchainIndex := ℕ
abbrev NodeID := ℕ
abbrev SchainID := ℕ
/-- `bin_consensus_value`: eight bits, of which the protocol means two values. -/
abbrev Value := UInt8
/-- A `std::string`. -/
abbrev Bytes := List UInt8
/-- A BLAKE3 digest. -/
abbrev Hash := List UInt8

/-- `bin_consensus_value( b )` for a Boolean. -/
def Value.ofBool (b : Bool) : Value := if b then 1 else 0

/-- A `bin_consensus_value` used as a condition. -/
def Value.toBool (v : Value) : Bool := v != 0

@[simp] theorem Value.toBool_ofBool (b : Bool) : (Value.ofBool b).toBool = b := by
  cases b <;> rfl

theorem Value.ofBool_injective {b c : Bool} (h : Value.ofBool b = Value.ofBool c) : b = c := by
  rw [← Value.toBool_ofBool b, h, Value.toBool_ofBool]

/-- One of the two values the protocol means. -/
def Value.IsBinary (v : Value) : Prop := v = Value.ofBool v.toBool

instance (v : Value) : Decidable v.IsBinary := inferInstanceAs (Decidable (v = _))

theorem Value.isBinary_ofBool (b : Bool) : (Value.ofBool b).IsBinary := by
  unfold Value.IsBinary
  rw [Value.toBool_ofBool]

def COMMON_COIN_ROUND : ℕ := 4
def MAX_ACTIVE_CONSENSUSES : ℕ := 5
def MAX_CONSENSUS_HISTORY : ℕ := 2 * MAX_ACTIVE_CONSENSUSES

/-- A binary consensus is named by its block and the proposer it votes on. -/
structure ProtocolKey where
  blockID : ℕ
  blockProposerIndex : SchainIndex
deriving DecidableEq, Repr

/-- `Schain::getRequiredSigners`. -/
def getRequiredSigners (nodeCount : ℕ) : ℕ :=
  if nodeCount ≤ 2 then nodeCount else 2 * nodeCount / 3 + 1

variable {nodeCount w : ℕ}

theorem getRequiredSigners_pos (h : 0 < nodeCount) :
    0 < getRequiredSigners nodeCount := by
  unfold getRequiredSigners
  split_ifs <;> omega

theorem getRequiredSigners_le (nodeCount : ℕ) : getRequiredSigners nodeCount ≤ nodeCount := by
  unfold getRequiredSigners
  split_ifs <;> omega

/-- The faulty nodes alone are never enough. -/
theorem lt_getRequiredSigners {f : ℕ} (h : 3 * f < nodeCount) :
    f < getRequiredSigners nodeCount := by
  unfold getRequiredSigners
  split_ifs <;> omega

/-- Two sets of signers share more nodes than are faulty. -/
theorem lt_two_mul_getRequiredSigners {f : ℕ} (h : 3 * f < nodeCount) :
    nodeCount + f < 2 * getRequiredSigners nodeCount := by
  unfold getRequiredSigners
  split_ifs <;> omega

/-- The `w` bytes of `x` in memory order, as `HASH_UPDATE` feeds them. -/
def leBytes : ℕ → ℕ → List UInt8
  | 0, _ => []
  | w + 1, x => UInt8.ofNat x :: leBytes w (x / 256)

/-- What `BLAKE3Hash::getConsensusHash` feeds the hasher; the last field is
`MSG_BLOCK_SIGN_BROADCAST`. -/
def consensusHashInput (blockProposerIndex blockId schainId : ℕ) : Bytes :=
  leBytes 8 blockProposerIndex ++ leBytes 8 blockId ++ leBytes 8 schainId ++ leBytes 4 12

/-- What `AUXBroadcastMessage::getCommonCoinHash` feeds the hasher. -/
def commonCoinHashInput (blockProposerIndex r blockId schainId msgType : ℕ) : Bytes :=
  leBytes 8 blockProposerIndex ++ leBytes 8 r ++ leBytes 8 blockId ++ leBytes 8 schainId ++
    leBytes 4 msgType

/-- Eight bytes read back as a `uint64_t`. -/
def fromLeBytes (bytes : List UInt8) : ℕ :=
  bytes.foldr (fun b acc => b.toNat + 256 * acc) 0

theorem length_leBytes (w x : ℕ) : (leBytes w x).length = w := by
  induction w generalizing x with
  | zero => rfl
  | succ w ih => simp only [leBytes, List.length_cons, ih]

theorem fromLeBytes_leBytes (w x : ℕ) : fromLeBytes (leBytes w x) = x % 256 ^ w := by
  induction w generalizing x with
  | zero => simp [leBytes, fromLeBytes, Nat.mod_one]
  | succ w ih =>
    have hcons : fromLeBytes (leBytes (w + 1) x) =
        (UInt8.ofNat x).toNat + 256 * fromLeBytes (leBytes w (x / 256)) := rfl
    have hpow : 256 ^ (w + 1) = 256 * 256 ^ w := Nat.pow_succ'
    rw [hcons, ih, hpow, Nat.mod_mul, UInt8.toNat_ofNat']

theorem leBytes_injective {x y : ℕ} (hx : x < 256 ^ w) (hy : y < 256 ^ w)
    (h : leBytes w x = leBytes w y) : x = y := by
  have hbytes := congrArg fromLeBytes h
  rw [fromLeBytes_leBytes, fromLeBytes_leBytes, Nat.mod_eq_of_lt hx, Nat.mod_eq_of_lt hy] at hbytes
  exact hbytes

/-- A number of `w` bytes in front can be read off. -/
theorem eq_of_leBytes_append {x y : ℕ} {l l' : Bytes} (hx : x < 256 ^ w) (hy : y < 256 ^ w)
    (h : leBytes w x ++ l = leBytes w y ++ l') : x = y ∧ l = l' := by
  obtain ⟨hhead, hrest⟩ := List.append_inj h ((length_leBytes w x).trans (length_leBytes w y).symm)
  exact ⟨leBytes_injective hx hy hhead, hrest⟩

theorem fromLeBytes_injective {a b : List UInt8} (hlength : a.length = b.length)
    (h : fromLeBytes a = fromLeBytes b) : a = b := by
  induction a generalizing b with
  | nil => exact (List.eq_nil_of_length_eq_zero hlength.symm).symm
  | cons x a ih =>
    cases b with
    | nil => cases hlength
    | cons y b =>
      have hsum : x.toNat + 256 * fromLeBytes a = y.toNat + 256 * fromLeBytes b := h
      have hx := x.toNat_lt
      have hy := y.toNat_lt
      rw [ih (Nat.succ.inj hlength) (by omega), UInt8.toNat_inj.mp (by omega : x.toNat = y.toNat)]

theorem fromLeBytes_lt (bytes : List UInt8) : fromLeBytes bytes < 256 ^ bytes.length := by
  induction bytes with
  | nil => exact Nat.one_pos
  | cons b bytes ih =>
    have hb := b.toNat_lt
    show b.toNat + 256 * fromLeBytes bytes < 256 ^ (bytes.length + 1)
    rw [Nat.pow_succ']
    omega

theorem leBytes_fromLeBytes {bytes : List UInt8} (h : bytes.length = w) :
    leBytes w (fromLeBytes bytes) = bytes := by
  refine fromLeBytes_injective ((length_leBytes w _).trans h.symm) ?_
  rw [fromLeBytes_leBytes]
  exact Nat.mod_eq_of_lt (h ▸ fromLeBytes_lt bytes)

/-- The first eight bytes of a digest as a number. -/
def firstUint64 (hash : Hash) : ℕ := fromLeBytes (hash.take 8)

def textBytes (text : String) : List UInt8 := text.toList.map fun c => UInt8.ofNat c.toNat

def bytesText (bytes : Bytes) : String := String.ofList (bytes.map fun b => Char.ofNat b.toNat)

/-- `toHex`, lower case. -/
def toHex (bytes : Bytes) : Bytes :=
  bytes.flatMap fun b => [hexDigit (b / 16), hexDigit (b % 16)]
where
  hexDigit (d : UInt8) : UInt8 := if d < 10 then 48 + d else 87 + d

theorem length_toHex (bytes : Bytes) : (toHex bytes).length = 2 * bytes.length := by
  induction bytes with
  | nil => rfl
  | cons b rest ih =>
    show (toHex rest).length + 1 + 1 = _
    rw [ih, List.length_cons]
    omega

theorem zero_not_mem_toHex (bytes : Bytes) : 0 ∉ toHex bytes := by
  have hdigit : ∀ b : UInt8, toHex.hexDigit (b / 16) ≠ 0 ∧ toHex.hexDigit (b % 16) ≠ 0 := by
    rintro ⟨x⟩
    revert x
    decide +kernel
  intro h
  obtain ⟨b, -, hb⟩ := List.mem_flatMap.mp h
  simp only [List.mem_cons, List.not_mem_nil, or_false] at hb
  exact hb.elim (fun heq => (hdigit b).1 heq.symm) fun heq => (hdigit b).2 heq.symm

/-- A `std::string` made from a `char*` ends at the first zero. -/
def cString (text : Bytes) : Bytes := text.takeWhile (· != 0)

theorem not_isEmpty {bytes : Bytes} (h : bytes ≠ []) : (!bytes.isEmpty) = true :=
  congrArg not (List.isEmpty_eq_false_iff.mpr h)

/-! ### Checks -/

section Check
variable {m : Type → Type} [Monad m] [MonadExceptOf String m]

/-- `CHECK_STATE`; the text ends before the file name and line number. -/
def checkState (check : Bool) (what : String) : m Unit :=
  if check then pure () else throwThe String ("State check failed::" ++ what)

/-- `CHECK_ARGUMENT`. -/
def checkArgument (check : Bool) (what : String) : m Unit :=
  if check then pure () else throwThe String ("Argument Check failed:" ++ what)

/-- `CommittedBlock::serializedSanityCheck`. -/
def serializedSanityCheck (serializedBlock : Bytes) : m Unit := do
  checkArgument (serializedBlock[8]? == some 123)
    "_serializedBlock->at( sizeof( uint64_t ) ) == '\x7b'"
  checkArgument (serializedBlock.getLast? == some 62) "_serializedBlock->back() == '>'"

end Check

variable {σ : Type} {check : Bool} {what : String} {u : Unit}

theorem checkState_run (check : Bool) (what : String) (s : σ) :
    (checkState check what : EStateM String σ Unit).run s =
      if check then .ok () s else .error ("State check failed::" ++ what) s := by
  cases check <;> rfl

theorem checkState_run_of_true (h : check = true) (what : String) (s : σ) :
    (checkState check what : EStateM String σ Unit).run s = .ok () s := by
  rw [checkState_run, if_pos h]

theorem run_checkState_bind_of_true {α : Type} (h : check = true) (what : String)
    (k : Unit → EStateM String σ α) (s : σ) :
    (checkState check what >>= k).run s = (k ()).run s := by
  cases h
  rfl

theorem checkState_run_of_false (h : check = false) (what : String) (s : σ) :
    (checkState check what : EStateM String σ Unit).run s =
      .error ("State check failed::" ++ what) s := by
  rw [checkState_run, h]
  rfl

theorem checkState_run_eq_ok {s s' : σ} :
    (checkState check what : EStateM String σ Unit).run s = .ok u s' ↔
      check = true ∧ s' = s := by
  cases check
  · exact ⟨nofun, fun h => Bool.noConfusion h.1⟩
  · exact ⟨fun h => by cases h; exact ⟨rfl, rfl⟩, fun h => by rw [h.2]; rfl⟩

theorem checkArgument_run_eq_ok {s s' : σ} :
    (checkArgument check what : EStateM String σ Unit).run s = .ok u s' ↔
      check = true ∧ s' = s := by
  cases check
  · exact ⟨nofun, fun h => Bool.noConfusion h.1⟩
  · exact ⟨fun h => by cases h; exact ⟨rfl, rfl⟩, fun h => by rw [h.2]; rfl⟩

theorem checkArgument_eq_ok :
    (checkArgument check what : Except String Unit) = .ok u ↔ check = true := by
  cases check
  · exact ⟨nofun, nofun⟩
  · exact ⟨fun _ => rfl, fun _ => rfl⟩

theorem checkState_eq_ok :
    (checkState check what : Except String Unit) = .ok u ↔ check = true := by
  cases check
  · exact ⟨nofun, nofun⟩
  · exact ⟨fun _ => rfl, fun _ => rfl⟩

section Bind
variable {α : Type} {k : Unit → Except String α} {a : α}

theorem checkState_bind_eq_ok :
    (checkState check what >>= k) = .ok a ↔ check = true ∧ k () = .ok a := by
  cases check
  · exact ⟨nofun, nofun⟩
  · exact ⟨fun h => ⟨rfl, h⟩, And.right⟩

theorem checkArgument_bind_eq_ok :
    (checkArgument check what >>= k) = .ok a ↔ check = true ∧ k () = .ok a := by
  cases check
  · exact ⟨nofun, nofun⟩
  · exact ⟨fun h => ⟨rfl, h⟩, And.right⟩

end Bind

end SkaleConsensus
