import SkaleConsensus.Library.Decimal

/-! The numbers that are read.

A number has to be written as the grammar says, and it must not be too large for a double. The
parser finds that out as it goes: it computes with an integer of 64 bits as long as the digits fit
into one, then with doubles, and refuses the number when the result is infinite. Doubles that are
whole numbers are natural numbers here, and infinity is `none`. -/
namespace SkaleConsensus.Library.JsonTree

/-! ### The grammar -/

/-- The fraction and the exponent of a number. -/
def isExponent : List UInt8 → Bool
  | [] => true
  | e :: rest =>
    let digits := match rest with
      | 43 :: digits => digits
      | 45 :: digits => digits
      | digits => digits
    (e == 101 || e == 69) && digits != [] && digits.all isDigit

def isFraction : List UInt8 → Bool
  | 46 :: rest => rest.takeWhile isDigit != [] && isExponent (rest.dropWhile isDigit)
  | rest => isExponent rest

def isMagnitude (literal : List UInt8) : Bool :=
  let digits := literal.takeWhile isDigit
  (digits == [48] || (digits != [] && digits.head? != some 48)) &&
    isFraction (literal.dropWhile isDigit)

/-- The grammar of numbers: no leading zeros, and a digit wherever one is due. -/
def isNumber : List UInt8 → Bool
  | 45 :: rest => isMagnitude rest
  | rest => isMagnitude rest

/-! ### The range -/

/-- The nearest double, of two that are as near the even one. -/
def toDouble (n : ℕ) : Option ℕ :=
  let unit := 2 ^ (n.log2 - 52)
  let below := n / unit
  let up := unit < 2 * (n % unit) ∨ unit = 2 * (n % unit) ∧ below % 2 = 1
  let nearest := (if up then below + 1 else below) * unit
  if nearest.log2 < 1024 then some nearest else none

/-- `d * 10 + digit`, which is rounded twice. -/
def appendDigit (d : Option ℕ) (c : UInt8) : Option ℕ :=
  (d.bind fun d => toDouble (10 * d)).bind fun d => toDouble (d + (c.toNat - 48))

inductive Significand where
  | integer (i : ℕ)
  | double (d : Option ℕ)

def Significand.value : Significand → Option ℕ
  | .integer i => toDouble i
  | .double d => d

/-- The next digit before the point; the digits that went into an integer are counted. -/
def readInteger (limit : ℕ) : Significand × ℕ → UInt8 → Significand × ℕ
  | (.integer i, count), c =>
    if 10 * i + (c.toNat - 48) ≤ limit then (.integer (10 * i + (c.toNat - 48)), count + 1)
    else (.double (appendDigit (toDouble i) c), count)
  | (.double d, count), c => (.double (appendDigit d c), count)

/-- The next digit after the point, with the number of those that were taken. Digits beyond the
precision of a double are skipped. -/
def readFraction : Significand × ℕ × ℕ → UInt8 → Significand × ℕ × ℕ
  | (s, count, taken), c =>
    match s with
    | .integer i =>
      if i < 2 ^ 53 then
        let i := 10 * i + (c.toNat - 48)
        (.integer i, if i = 0 then count else count + 1, taken + 1)
      else next (toDouble i) count taken c
    | .double d => next d count taken c
where
  next (d : Option ℕ) (count taken : ℕ) (c : UInt8) : Significand × ℕ × ℕ :=
    if count < 17 then
      let d := appendDigit d c
      (.double d, if d = some 0 then count else count + 1, taken + 1)
    else (.double d, count, taken)

/-- Whether `d` times ten to the exponent is finite. Two divisions by powers of ten follow for a
large negative exponent, and the second one may give zero. -/
def isFinite (d : Option ℕ) (taken : ℕ) (minus : Bool) (exponent : ℕ) : Bool :=
  match d with
  | some d => minus || exponent ≤ taken || (exponent ≤ 308 + taken &&
      ((toDouble (10 ^ (exponent - taken))).bind fun power => toDouble (d * power)).isSome)
  | none => if minus then 616 < exponent + taken else exponent + 616 < taken

def magnitudeInRange (limit : ℕ) (literal : List UInt8) : Bool :=
  let digits := literal.takeWhile isDigit
  let rest := literal.dropWhile isDigit
  let fraction := match rest with
    | 46 :: rest => rest.takeWhile isDigit
    | _ => []
  let exponent := (rest.dropWhile fun c => c == 46 || isDigit c).tail
  let whole := digits.tail.foldl (readInteger limit) (.integer (decimalValue (digits.take 1)), 0)
  let read := fraction.foldl readFraction (whole.1, whole.2, 0)
  isFinite read.1.value read.2.2 (exponent.head? == some 45)
    (decimalValue (exponent.filter isDigit))

def inRange : List UInt8 → Bool
  | 45 :: rest => magnitudeInRange (2 ^ 63) rest
  | rest => magnitudeInRange (2 ^ 64 - 1) rest

def readsNumber (literal : List UInt8) : Bool := isNumber literal && inRange literal

/-! ### Integers of 64 bits -/

theorem isSome_toDouble {n : ℕ} (h : n < 2 ^ 64) : (toDouble n).isSome = true := by
  have hunit : 2 ^ (n.log2 - 52) ≤ n + 1 := by
    rcases Nat.eq_zero_or_pos n with rfl | hpos
    · decide
    · calc 2 ^ (n.log2 - 52) ≤ 2 ^ n.log2 := Nat.pow_le_pow_right (by decide) (Nat.sub_le _ _)
        _ ≤ n + 1 := Nat.le_succ_of_le (Nat.log2_self_le hpos.ne')
  have hbelow := Nat.div_mul_le_self n (2 ^ (n.log2 - 52))
  have hlog : ∀ m ≤ 2 * n + 1, m.log2 < 1024 := by
    intro m hm
    rcases eq_or_ne m 0 with rfl | hne
    · decide
    · have hsmall : m.log2 < 65 := (Nat.log2_lt hne).mpr (by omega)
      omega
  unfold toDouble
  dsimp only
  rw [if_pos (hlog _ ?_)]
  · rfl
  · split_ifs
    · rw [Nat.add_mul, Nat.one_mul]
      omega
    · omega

/-- The digits stay an integer as long as the number is within the limit. -/
theorem foldl_readInteger {limit : ℕ} (digits : List UInt8) (i count : ℕ)
    (h : digits.foldl (fun value d => 10 * value + (d.toNat - 48)) i ≤ limit) :
    (digits.foldl (readInteger limit) (.integer i, count)).1 =
      .integer (digits.foldl (fun value d => 10 * value + (d.toNat - 48)) i) := by
  have hmono : ∀ (digits : List UInt8) (i : ℕ),
      i ≤ digits.foldl (fun value d => 10 * value + (d.toNat - 48)) i := by
    intro digits
    induction digits with
    | nil => exact fun _ => le_rfl
    | cons d rest ih =>
      intro i
      have hnext : i ≤ 10 * i + (d.toNat - 48) := by omega
      exact hnext.trans (ih _)
  induction digits generalizing i count with
  | nil => rfl
  | cons d rest ih =>
    rw [List.foldl_cons, readInteger, if_pos ((hmono rest _).trans h)]
    exact ih _ _ h

theorem magnitudeInRange_decimalText {limit n : ℕ} (h : n ≤ limit) (hlimit : limit < 2 ^ 64) :
    magnitudeInRange limit (decimalText n) = true := by
  unfold magnitudeInRange
  rw [takeWhile_decimalText, dropWhile_decimalText]
  have hvalue := decimalValue_decimalText n
  cases hdigits : decimalText n with
  | nil => exact absurd hdigits (decimalText_ne_nil n)
  | cons d rest =>
    rw [hdigits] at hvalue
    have hread : (rest.foldl (readInteger limit) (.integer (decimalValue [d]), 0)).1 =
        .integer n := by
      rw [foldl_readInteger rest (decimalValue [d]) 0 (hvalue.trans_le h)]
      exact congrArg Significand.integer hvalue
    simp only [List.tail_cons, List.take_succ_cons, List.take_zero, List.foldl_nil, hread]
    obtain ⟨d, hd⟩ := Option.isSome_iff_exists.mp (isSome_toDouble (h.trans_lt hlimit))
    rw [Significand.value, hd]
    rfl

theorem isMagnitude_decimalText (n : ℕ) : isMagnitude (decimalText n) = true := by
  unfold isMagnitude
  rw [takeWhile_decimalText, dropWhile_decimalText]
  by_cases h : n = 0
  · subst h
    rfl
  · simp [decimalText_ne_nil, head_decimalText h, isFraction, isExponent]

theorem readsNumber_signedText {n : ℤ} (h : -2 ^ 63 ≤ n ∧ n < 2 ^ 63) :
    readsNumber (signedText n) = true := by
  unfold readsNumber signedText
  rw [Bool.and_eq_true]
  split_ifs
  · exact ⟨isMagnitude_decimalText _, magnitudeInRange_decimalText (by omega) (by decide)⟩
  · unfold isNumber inRange
    split
    · next heq => exact absurd heq (decimalText_ne_minus _ _)
    · exact ⟨isMagnitude_decimalText _, magnitudeInRange_decimalText (by omega) (by decide)⟩

end SkaleConsensus.Library.JsonTree
