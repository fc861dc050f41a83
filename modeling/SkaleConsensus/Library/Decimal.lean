import Mathlib.Algebra.Group.Int.Defs
import Mathlib.Algebra.GroupWithZero.Nat
import Mathlib.Data.List.Basic
import Mathlib.Data.List.TakeWhile

/-! Numbers in texts.

`decimalText` prints a number; `stoull` and `streamUint64` read one back, with the blanks, the
sign and the trailing characters that the C library lets pass. Texts that are put one after
another behind a separator that occurs in none of them can be told apart again. -/
namespace SkaleConsensus.Library

def decimalText (n : ℕ) : List UInt8 := (Nat.toDigits 10 n).map fun c => UInt8.ofNat c.toNat

/-- `to_string` of a signed number. -/
def signedText (n : ℤ) : List UInt8 :=
  if n < 0 then 45 :: decimalText n.natAbs else decimalText n.natAbs

def isDigit (c : UInt8) : Bool := decide (48 ≤ c) && decide (c ≤ 57)

def isSpace (c : UInt8) : Bool := c == 32 || (decide (9 ≤ c) && decide (c ≤ 13))

def decimalValue (digits : List UInt8) : ℕ :=
  digits.foldl (fun value d => 10 * value + (d.toNat - 48)) 0

/-- The digits at the start of a text as a number of 64 bits. -/
def leadingUint64 (text : List UInt8) : Option ℕ :=
  let digits := text.takeWhile isDigit
  if digits ≠ [] ∧ decimalValue digits < 2 ^ 64 then some (decimalValue digits) else none

/-- What the C library does before and after it reads digits: it skips blanks, and a minus
sign negates modulo 2^64. -/
def readSigned (leading : List UInt8 → Option ℕ) (text : List UInt8) : Option ℕ :=
  match text.dropWhile isSpace with
  | 43 :: rest => leading rest
  | 45 :: rest => (leading rest).map fun value => (2 ^ 64 - value) % 2 ^ 64
  | rest => leading rest

/-- `stoull` in base ten; `none` where it throws. -/
def stoull (text : List UInt8) : Option ℕ := readSigned leadingUint64 text

/-- `stringstream( text ) >> value` for a `uint64_t`: a number that is too large becomes the
largest, and a text without digits is zero. -/
def streamUint64 (text : List UInt8) : ℕ :=
  (readSigned (fun rest => some (min (decimalValue (rest.takeWhile isDigit)) (2 ^ 64 - 1)))
    text).getD 0

variable {n : ℕ}

theorem toNat_of_mem_toDigits {c : Char} (h : c ∈ Nat.toDigits 10 n) :
    48 ≤ c.toNat ∧ c.toNat ≤ 57 := by
  have hdigit := Nat.isDigit_of_mem_toDigits (by decide) (by decide) h
  simpa [Char.isDigit, UInt32.le_iff_toNat_le] using hdigit

theorem isDigit_of_mem_decimalText {d : UInt8} (h : d ∈ decimalText n) :
    isDigit d = true := by
  obtain ⟨c, hc, rfl⟩ := List.mem_map.mp h
  have hrange := toNat_of_mem_toDigits hc
  simp only [isDigit, Bool.and_eq_true, decide_eq_true_eq, UInt8.le_iff_toNat_le,
    UInt8.toNat_ofNat']
  rw [Nat.mod_eq_of_lt (by omega)]
  exact hrange

theorem decimalText_ne_nil (n : ℕ) : decimalText n ≠ [] := by
  simp [decimalText, Nat.toDigits_ne_nil]

theorem decimalValue_decimalText (n : ℕ) : decimalValue (decimalText n) = n := by
  rw [decimalValue, decimalText, List.foldl_map]
  refine Eq.trans (List.foldl_ext _ _ _ fun value c hc => ?_)
    (Nat.ofDigitChars_toDigits (by decide) (by decide) : Nat.ofDigitChars 10 _ 0 = n)
  have hrange := toNat_of_mem_toDigits hc
  rw [UInt8.toNat_ofNat', Nat.mod_eq_of_lt (by omega)]
  rfl

theorem decimalText_injective {m : ℕ} (h : decimalText m = decimalText n) : m = n := by
  rw [← decimalValue_decimalText m, h, decimalValue_decimalText]

theorem takeWhile_decimalText (n : ℕ) : (decimalText n).takeWhile isDigit = decimalText n :=
  List.takeWhile_eq_self_iff.mpr fun _ hd => isDigit_of_mem_decimalText hd

theorem dropWhile_decimalText (n : ℕ) : (decimalText n).dropWhile isDigit = [] :=
  List.dropWhile_eq_nil_iff.mpr fun _ hd => isDigit_of_mem_decimalText hd

/-- A number is written without leading zeros. -/
theorem head_decimalText (h : n ≠ 0) : (decimalText n).head? ≠ some 48 := by
  induction n using Nat.strong_induction_on with
  | _ n ih =>
    unfold decimalText
    rw [Nat.toDigits_eq_if (by decide)]
    split_ifs with hlt
    · have hdigit : ∀ d < 10, d ≠ 0 → UInt8.ofNat d.digitChar.toNat ≠ 48 := by decide
      intro hhead
      exact hdigit n hlt h (Option.some.inj hhead)
    · rw [List.map_append]
      show (decimalText (n / 10) ++ _).head? ≠ some 48
      rw [List.head?_append_of_ne_nil _ (decimalText_ne_nil (n / 10))]
      exact ih (n / 10) (by omega) (by omega)

theorem decimalText_ne_minus (n : ℕ) (rest : List UInt8) : decimalText n ≠ 45 :: rest := by
  intro h
  have hdigit : isDigit 45 = true := isDigit_of_mem_decimalText (h ▸ List.mem_cons_self)
  cases hdigit

/-- A number has neither blanks nor a sign before it. -/
theorem readSigned_decimalText (leading : List UInt8 → Option ℕ) (n : ℕ) :
    readSigned leading (decimalText n) = leading (decimalText n) := by
  cases hdigits : decimalText n with
  | nil => exact absurd hdigits (decimalText_ne_nil n)
  | cons d rest =>
    have hd : isDigit d = true := isDigit_of_mem_decimalText (hdigits ▸ List.mem_cons_self)
    have hspace : isSpace d = false := by
      simp only [isDigit, Bool.and_eq_true, decide_eq_true_eq, UInt8.le_iff_toNat_le] at hd
      simp [isSpace, UInt8.le_iff_toNat_le, ← UInt8.toNat_inj] at hd ⊢
      omega
    unfold readSigned
    rw [List.dropWhile_cons_of_neg (by simp [hspace])]
    split
    · next heq => cases heq; cases hd
    · next heq => cases heq; cases hd
    · rfl

theorem stoull_decimalText (h : n < 2 ^ 64) : stoull (decimalText n) = some n := by
  rw [stoull, readSigned_decimalText, leadingUint64]
  simp only [takeWhile_decimalText, decimalValue_decimalText]
  exact if_pos ⟨decimalText_ne_nil n, h⟩

theorem streamUint64_decimalText (h : n < 2 ^ 64) : streamUint64 (decimalText n) = n := by
  rw [streamUint64, readSigned_decimalText, takeWhile_decimalText, decimalValue_decimalText]
  exact Nat.min_eq_left (Nat.le_pred_of_lt h)

/-! ### Separated texts -/

/-- Texts without the separator, each behind one, determine the list they come from. -/
theorem flatMap_separated_injective {α β : Type} [DecidableEq β] {separator : β}
    {text : α → List β} (hinjective : Function.Injective text) (hfree : ∀ a, separator ∉ text a)
    {l l' : List α} (h : l.flatMap (fun a => separator :: text a) =
      l'.flatMap fun a => separator :: text a) : l = l' := by
  -- a text ends where the next separator is
  have hends : ∀ (a : α) (rest : List α),
      (text a ++ rest.flatMap fun a => separator :: text a).takeWhile (· ≠ separator) = text a := by
    intro a rest
    have hall : ∀ b ∈ text a, decide (b ≠ separator) = true := fun b hb =>
      decide_eq_true fun hsep => hfree a (hsep ▸ hb)
    rw [List.takeWhile_append_of_pos hall]
    cases rest <;> simp
  induction l generalizing l' with
  | nil => cases l' with
    | nil => rfl
    | cons => simp at h
  | cons a rest ih => cases l' with
    | nil => simp at h
    | cons b rest' =>
      simp only [List.flatMap_cons, List.cons_append, List.cons.injEq, true_and] at h
      have htext := congrArg (List.takeWhile (· ≠ separator)) h
      rw [hends, hends] at htext
      rw [htext, List.append_cancel_left_eq] at h
      rw [hinjective htext, ih h]

end SkaleConsensus.Library
