import SkaleConsensus.Block.Canonical

/-! A list of transactions that keeps its bytes.

`TransactionList::serialize` writes the transactions with or without their partial hashes, as its
flag says, and keeps what it wrote: a later call gets the bytes of the first one, whatever its flag
is. The sizes are computed anew on every call. So sizes and bytes belong together as long as the
first call had the flag of the last; otherwise a list is read back only if it is empty, or by
chance (`roundTrips_iff_readable`). -/
namespace SkaleConsensus.Block
open Library TransactionList

/-- An object of class `TransactionList`. -/
structure CachedList where
  transactions : List Transaction
  serializedTransactions : Option Bytes

section Code
variable (blake3 : Bytes → Hash)

/-- `TransactionList::TransactionList`. -/
def CachedList.make (transactions : List Transaction) : CachedList := ⟨transactions, none⟩

def CachedList.serialize (l : CachedList) (writeTxPartialHash : Bool) : Bytes × CachedList :=
  match l.serializedTransactions with
  | some bytes => (bytes, l)
  | none =>
    let bytes := TransactionList.serialize blake3 l.transactions writeTxPartialHash
    (bytes, {l with serializedTransactions := some bytes})

/-- The object after calls of `serialize` with these flags. -/
def CachedList.serializedWith (l : CachedList) (flags : List Bool) : CachedList :=
  flags.foldl (fun l flag => (l.serialize blake3 flag).2) l

def CachedList.createTransactionSizesVector (l : CachedList) (writePartialHash : Bool) :
    Except String (List ℕ) := do
  let ret ← l.transactions.mapM fun t => do
    checkState (decide (0 < t.getSerializedSize writePartialHash)) "x > 0"
    return t.getSerializedSize writePartialHash
  checkState (ret.all fun size => decide (0 < size)) "size > 0"
  return ret

/-- What is read back from an object, after earlier calls of `serialize`. -/
def readBack (list : List Transaction) (earlier : List Bool) (flag : Bool) :
    Except String (List Transaction) := do
  let l := (CachedList.make list).serializedWith blake3 earlier
  let sizes ← l.createTransactionSizesVector flag
  TransactionList.deserialize blake3 sizes (l.serialize blake3 flag).1 0 flag

def ListRoundTrips (list : List Transaction) (earlier : List Bool) (flag : Bool) : Prop :=
  readBack blake3 list earlier flag = .ok list

end Code

/-! ### What the object keeps -/

section Kept
variable {blake3 : Bytes → Hash}

theorem serializedWith_of_kept {l : CachedList} {bytes : Bytes}
    (h : l.serializedTransactions = some bytes) (flags : List Bool) :
    l.serializedWith blake3 flags = l := by
  induction flags with
  | nil => rfl
  | cons flag rest ih =>
    have hcall : (l.serialize blake3 flag).2 = l := by
      unfold CachedList.serialize
      rw [h]
    show (l.serialize blake3 flag).2.serializedWith blake3 rest = l
    rw [hcall, ih]

theorem transactions_serializedWith (list : List Transaction) (earlier : List Bool) :
    ((CachedList.make list).serializedWith blake3 earlier).transactions = list := by
  cases earlier with
  | nil => rfl
  | cons first rest =>
    show (((CachedList.make list).serialize blake3 first).2.serializedWith blake3 rest).transactions
      = list
    rw [serializedWith_of_kept rfl]
    rfl

/-- What a call returns is what the first call wrote. -/
theorem serialize_serializedWith (list : List Transaction) (earlier : List Bool) (flag : Bool) :
    (((CachedList.make list).serializedWith blake3 earlier).serialize blake3 flag).1 =
      TransactionList.serialize blake3 list (earlier.headD flag) := by
  cases earlier with
  | nil => rfl
  | cons first rest =>
    show ((((CachedList.make list).serialize blake3 first).2.serializedWith blake3 rest).serialize
      blake3 flag).1 = _
    rw [serializedWith_of_kept rfl]
    rfl

theorem createTransactionSizesVector_eq (l : CachedList) (flag : Bool) :
    l.createTransactionSizesVector flag =
      .ok (l.transactions.map (Transaction.getSerializedSize · flag)) := by
  have hsizes : (l.transactions.mapM fun t => (do
      checkState (decide (0 < t.getSerializedSize flag)) "x > 0"
      return t.getSerializedSize flag : Except String ℕ)) =
      .ok (l.transactions.map (Transaction.getSerializedSize · flag)) := by
    induction l.transactions with
    | nil => rfl
    | cons t rest ih =>
      rw [List.mapM_cons]
      refine bind_eq_ok.mpr ⟨t.getSerializedSize flag, ?_, bind_eq_ok.mpr ⟨_, ih, rfl⟩⟩
      exact checkState_bind_eq_ok.mpr ⟨decide_eq_true t.getSerializedSize_pos, rfl⟩
  refine bind_eq_ok.mpr ⟨_, hsizes, checkState_bind_eq_ok.mpr ⟨?_, rfl⟩⟩
  refine List.all_eq_true.mpr fun size hsize => ?_
  obtain ⟨t, -, rfl⟩ := List.mem_map.mp hsize
  exact decide_eq_true t.getSerializedSize_pos

/-- Sizes for the flag of the last call, bytes for that of the first. -/
theorem readBack_eq (list : List Transaction) (earlier : List Bool) (flag : Bool) :
    readBack blake3 list earlier flag =
      TransactionList.deserialize blake3 (list.map (Transaction.getSerializedSize · flag))
        (TransactionList.serialize blake3 list (earlier.headD flag)) 0 flag := by
  unfold readBack
  dsimp only
  rw [createTransactionSizesVector_eq, transactions_serializedWith, serialize_serializedWith]
  rfl

end Kept

/-! ### Bytes with hashes, sizes without -/

/-- The transactions stand in the bytes where they would be without partial hashes, from this
place on. -/
def Standing (bytes : Bytes) : ℕ → List Transaction → Prop
  | _, [] => True
  | index, t :: rest => t.data <+: bytes.drop index ∧ Standing bytes (index + t.data.length) rest

/-- The bytes fit the sizes: they were written for the same flag; or there is nothing to read; or
they were written with partial hashes, and the transactions stand where those without are
looked for. -/
def Readable (blake3 : Bytes → Hash) (list : List Transaction) (earlier : List Bool)
    (flag : Bool) : Prop :=
  earlier.headD flag = flag ∨ list = [] ∨
    (flag = false ∧ Standing (TransactionList.serialize blake3 list true) 1 list)

section Mixed
variable {blake3 : Bytes → Hash}

theorem Transaction.deserialize_iff_prefix {bytes : Bytes} {index : ℕ} {t : Transaction}
    (hend : index + t.data.length ≤ bytes.length) :
    Transaction.deserialize blake3 bytes index t.data.length false = .ok t ↔
      t.data <+: bytes.drop index := by
  have hpos := List.length_pos_of_ne_nil t.nonempty
  have hpart : (bytes.drop index).take t.data.length ≠ [] := by
    refine List.ne_nil_of_length_pos ?_
    rw [List.length_take, List.length_drop]
    omega
  have hread : Transaction.deserialize blake3 bytes index t.data.length false =
      .ok ⟨_, hpart⟩ := by
    unfold Transaction.deserialize slice
    refine checkArgument_bind_eq_ok.mpr ⟨decide_eq_true ?_, ?_⟩
    · exact (Nat.mod_le _ _).trans hend
    refine checkArgument_bind_eq_ok.mpr ⟨decide_eq_true hpos, ?_⟩
    refine bind_eq_ok.mpr ⟨_, if_neg (Nat.not_lt.mpr hend), ?_⟩
    exact dif_pos hpart
  rw [hread, List.prefix_iff_eq_take, Except.ok.injEq]
  constructor
  · exact fun heq => (congrArg Transaction.data heq).symm
  · intro heq
    cases t
    simp only [Transaction.mk.injEq]
    exact heq.symm

theorem deserializeFrom_iff_standing {bytes : Bytes} {index : ℕ} {list : List Transaction}
    (hend : index + (list.map (Transaction.getSerializedSize · false)).sum ≤ bytes.length) :
    deserializeFrom blake3 bytes false index (list.map (Transaction.getSerializedSize · false)) =
      .ok list ↔ Standing bytes index list := by
  induction list generalizing index with
  | nil => exact iff_of_true rfl trivial
  | cons t rest ih =>
    have hsize : t.getSerializedSize false = t.data.length := rfl
    rw [List.map_cons, List.sum_cons, hsize] at hend
    have hhere := @Transaction.deserialize_iff_prefix blake3 bytes index t (by omega)
    have hrest := @ih (index + t.data.length) (by omega)
    rw [List.map_cons, hsize]
    constructor
    · intro h
      have h₁ := after_check h
      obtain ⟨t', ht, h₂⟩ := bind_eq_ok.mp h₁
      obtain ⟨rest', hlist, h₃⟩ := bind_eq_ok.mp h₂
      cases h₃
      exact ⟨hhere.mp (mapError_eq_ok.mp ht), hrest.mp hlist⟩
    · rintro ⟨hfront, hstanding⟩
      refine checkArgument_bind_eq_ok.mpr ⟨decide_eq_true ?_, ?_⟩
      · exact @Transaction.getSerializedSize_pos false t
      refine bind_eq_ok.mpr ⟨t, mapError_eq_ok.mpr (hhere.mpr hfront), ?_⟩
      exact bind_eq_ok.mpr ⟨rest, hrest.mpr hstanding, rfl⟩

theorem length_flatMap_serialize (hdigest : Hasher blake3) (list : List Transaction) (flag : Bool) :
    (list.flatMap (Transaction.serialize blake3 · flag)).length =
      (list.map (Transaction.getSerializedSize · flag)).sum := by
  rw [List.length_flatMap]
  congr 1
  exact List.map_congr_left fun t _ => Transaction.length_serialize hdigest t

theorem sum_sizes (list : List Transaction) :
    (list.map (Transaction.getSerializedSize · true)).sum =
      (list.map (Transaction.getSerializedSize · false)).sum + PARTIAL_HASH_LEN * list.length := by
  induction list with
  | nil => rfl
  | cons t rest ih =>
    have hsize : t.getSerializedSize true = t.getSerializedSize false + PARTIAL_HASH_LEN := rfl
    simp only [List.map_cons, List.sum_cons, List.length_cons, ih, hsize, Nat.mul_succ]
    omega

theorem length_serialize_list (hdigest : Hasher blake3) (list : List Transaction) (flag : Bool) :
    (TransactionList.serialize blake3 list flag).length =
      (list.map (Transaction.getSerializedSize · flag)).sum + 2 := by
  rw [length_serialize, length_flatMap_serialize hdigest]

/-- Bytes without partial hashes are too short for sizes with them. -/
theorem eq_nil_of_deserialize_without (hdigest : Hasher blake3) {list : List Transaction}
    (h : TransactionList.deserialize blake3 (list.map (Transaction.getSerializedSize · true))
      (TransactionList.serialize blake3 list false) 0 true = .ok list) : list = [] := by
  have hbytes := congrArg List.length (of_deserialize h).2
  have hwith := sum_sizes list
  rw [List.length_take, List.length_drop, length_flatMap_serialize hdigest,
    length_serialize_list hdigest] at hbytes
  have hhash : PARTIAL_HASH_LEN = 8 := rfl
  rw [hhash] at hwith
  exact List.eq_nil_of_length_eq_zero (by omega)

/-- Bytes with partial hashes are long enough for sizes without them. -/
theorem deserialize_with_iff (hdigest : Hasher blake3) {list : List Transaction} (hne : list ≠ []) :
    TransactionList.deserialize blake3 (list.map (Transaction.getSerializedSize · false))
      (TransactionList.serialize blake3 list true) 0 false = .ok list ↔
    Standing (TransactionList.serialize blake3 list true) 1 list := by
  have hlength := length_serialize_list hdigest list true
  have hwith := sum_sizes list
  rw [← @deserializeFrom_iff_standing blake3 _ 1 list (by omega)]
  obtain ⟨t, rest, rfl⟩ := List.exists_cons_of_ne_nil hne
  have hpos := @Transaction.getSerializedSize_pos true t
  have hchecks := @TransactionList.deserialize_eq_deserializeFrom blake3 false t rest [] true
    (by rw [hlength, List.map_cons, List.sum_cons, if_neg Bool.false_ne_true]; omega)
  exact Eq.congr_left hchecks

end Mixed

/-- A list is read back from an object that was serialized before if and only if the bytes that it
keeps fit the sizes. -/
theorem roundTrips_iff_readable (blake3 : Bytes → Hash)
    (hdigest : ∀ x, (blake3 x).length = HASH_LEN) (list : List Transaction) (earlier : List Bool)
    (flag : Bool) :
    ListRoundTrips blake3 list earlier flag ↔ Readable blake3 list earlier flag := by
  unfold ListRoundTrips Readable
  rw [readBack_eq]
  by_cases hsame : earlier.headD flag = flag
  · rw [hsame]
    exact iff_of_true (deserialize_serialize hdigest list []) (.inl rfl)
  by_cases hnil : list = []
  · subst hnil
    exact iff_of_true rfl (.inr (.inl rfl))
  simp only [hsame, hnil, false_or]
  cases flag with
  | true =>
    have hfirst : earlier.headD true = false := Bool.eq_false_iff.mpr hsame
    rw [hfirst]
    exact iff_of_false (fun h => hnil (eq_nil_of_deserialize_without hdigest h)) (by simp)
  | false =>
    have hfirst : earlier.headD false = true := Bool.eq_true_of_not_eq_false hsame
    rw [hfirst, deserialize_with_iff hdigest hnil]
    simp only [true_and]

theorem roundTrips_sevens :
    Readable (fun _ => zeros) [seven, seven] [true, false] true ∧
      ListRoundTrips (fun _ => zeros) [seven, seven] [true, false] true :=
  ⟨.inl rfl, (roundTrips_iff_readable (fun _ => zeros) (fun _ => rfl) [seven, seven] [true, false]
    true).mpr (.inl rfl)⟩

/-- After a call with partial hashes the sizes without them point into the first of these: the
second transaction that is read is a byte of it. After a call without them nothing is read back,
whatever the hash function is. -/
theorem hash_read_as_transaction :
    readBack (fun _ => zeros) [seven, seven] [true] false =
        .ok [seven, ⟨[0], List.cons_ne_nil _ _⟩] ∧
      ¬ ListRoundTrips (fun _ => zeros) [seven, seven] [true] false ∧
      ∀ blake3 : Bytes → Hash, (∀ x, (blake3 x).length = HASH_LEN) →
        ¬ ListRoundTrips blake3 [seven] [false] true := by
  have hread : readBack (fun _ => zeros) [seven, seven] [true] false =
      .ok [seven, ⟨[0], List.cons_ne_nil _ _⟩] := by rfl
  refine ⟨hread, fun h => ?_, fun blake3 hdigest h => ?_⟩
  · have hsame := Except.ok.inj (hread.symm.trans h)
    exact absurd hsame (by decide)
  · have hshort := (readBack_eq [seven] [false] true).symm.trans h
    exact absurd (eq_nil_of_deserialize_without hdigest hshort) (List.cons_ne_nil _ _)

end SkaleConsensus.Block
