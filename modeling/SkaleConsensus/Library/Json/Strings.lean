import SkaleConsensus.Library.Decimal
import SkaleConsensus.Library.Execution

/-! The inside of a JSON string, read one byte at a time.

A byte that is no quote, no backslash and no control character stands for itself, so that a text
of such bytes is read back unchanged where it is pasted between quotes (`run_inside_plain`). -/
namespace SkaleConsensus.Library.JsonTree

/-- Where the reader stands in an escape. -/
inductive Escape where
  | plain
  | backslash
  /-- After `\u`, with `left` digits to come; `high` is the surrogate before. -/
  | hex (high : Option ℕ) (left code : ℕ)
  /-- After a high surrogate a `\` is due, then a `u`. -/
  | low (high : ℕ)
  | lowU (high : ℕ)
deriving DecidableEq, Repr

def hexValue (c : UInt8) : Option ℕ :=
  if isDigit c then some (c.toNat - 48)
  else if 65 ≤ c ∧ c ≤ 70 then some (c.toNat - 55)
  else if 97 ≤ c ∧ c ≤ 102 then some (c.toNat - 87)
  else none

/-- The byte that an escape of two bytes stands for. -/
def escaped (c : UInt8) : Option UInt8 :=
  [(34, 34), (47, 47), (92, 92), (98, 8), (102, 12), (110, 10), (114, 13), (116, 9)].lookup c

def utf8 (code : ℕ) : List UInt8 :=
  if code < 0x80 then [.ofNat code]
  else if code < 0x800 then [.ofNat (0xC0 + code / 64), .ofNat (0x80 + code % 64)]
  else if code < 0x10000 then
    [.ofNat (0xE0 + code / 4096), .ofNat (0x80 + code / 64 % 64), .ofNat (0x80 + code % 64)]
  else
    [.ofNat (0xF0 + code / 262144), .ofNat (0x80 + code / 4096 % 64),
      .ofNat (0x80 + code / 64 % 64), .ofNat (0x80 + code % 64)]

/-- The fourth digit: a high surrogate needs a low one, and a low one needs a high one. -/
def endHex (high : Option ℕ) (code : ℕ) (text : List UInt8) : Option (List UInt8 × Escape) :=
  let isLow := 0xDC00 ≤ code ∧ code ≤ 0xDFFF
  match high with
  | some h =>
    if isLow then
      some (text ++ utf8 ((h - 0xD800) * 1024 + (code - 0xDC00) + 0x10000), .plain)
    else none
  | none =>
    if 0xD800 ≤ code ∧ code ≤ 0xDBFF then some (text, .low code)
    else if isLow then none
    else some (text ++ utf8 code, .plain)

/-- One byte inside a string; a quote outside an escape is none. -/
def stringStep (c : UInt8) : List UInt8 × Escape → Option (List UInt8 × Escape)
  | (text, .plain) =>
    if c = 92 then some (text, .backslash)
    else if c = 34 ∨ c < 32 then none
    else some (text ++ [c], .plain)
  | (text, .backslash) =>
    match escaped c with
    | some b => some (text ++ [b], .plain)
    | none => if c = 117 then some (text, .hex none 4 0) else none
  | (text, .hex high left code) =>
    match hexValue c with
    | none => none
    | some d =>
      if left ≤ 1 then endHex high (16 * code + d) text
      else some (text, .hex high (left - 1) (16 * code + d))
  | (text, .low high) => if c = 92 then some (text, .lowU high) else none
  | (text, .lowU high) => if c = 117 then some (text, .hex (some high) 4 0) else none

def inside : Machine (List UInt8 × Escape) UInt8 := ⟨([], .plain), stringStep⟩

/-- A byte that stands for itself in a string. -/
def isPlain (c : UInt8) : Bool := c != 34 && c != 92 && decide (32 ≤ c)

theorem stringStep_of_isPlain {c : UInt8} (h : isPlain c = true) (text : List UInt8) :
    stringStep c (text, .plain) = some (text ++ [c], .plain) := by
  simp only [isPlain, Bool.and_eq_true, bne_iff_ne, decide_eq_true_eq] at h
  simp only [stringStep, if_neg h.1.2, h.1.1, false_or, if_neg (UInt8.not_lt.mpr h.2)]

theorem run_inside_plain {z : List UInt8} (h : z.all isPlain = true) (text : List UInt8) :
    inside.runFrom (text, .plain) z = some (text ++ z, .plain) := by
  induction z generalizing text with
  | nil => simp [Machine.runFrom]
  | cons c rest ih =>
    rw [List.all_cons, Bool.and_eq_true] at h
    have hstep : inside.step c (text, .plain) = some (text ++ [c], .plain) :=
      stringStep_of_isPlain h.1 text
    rw [Machine.runFrom, hstep, Option.bind_some, ih h.2]
    simp

theorem stringStep_quote {s s' : List UInt8 × Escape} (h : stringStep 34 s = some s') :
    s.2 = .backslash ∧ s'.1 = s.1 ++ [34] := by
  obtain ⟨text, escape⟩ := s
  cases escape with
  | backslash =>
    cases h
    exact ⟨rfl, rfl⟩
  | plain | hex | low | lowU => cases h

end SkaleConsensus.Library.JsonTree
