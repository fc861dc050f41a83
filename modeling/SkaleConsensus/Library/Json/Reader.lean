import SkaleConsensus.Library.Json.Numbers
import SkaleConsensus.Library.Json.Strings

/-! JSON texts.

A reader that takes a text one byte at a time, with a stack of the arrays and objects that are
still open, so that what it does with the rest of a text depends on the beginning only through
the state it is in. Numbers are kept as they are written. Of two members with one name an object
keeps both.

Two readers of which one is inside a string and the other outside never come to the same side
(`Reader.Opposed.run`). -/
namespace SkaleConsensus.Library

inductive JsonTree where
  | null
  | bool (b : Bool)
  | number (literal : List UInt8)
  | string (text : List UInt8)
  | array (items : List JsonTree)
  | object (members : List (List UInt8 × JsonTree))

namespace JsonTree

def isNumberByte (c : UInt8) : Bool :=
  isDigit c || c == 43 || c == 45 || c == 46 || c == 69 || c == 101

/-- The value as an unsigned integer of 64 bits. -/
def uint64? : JsonTree → Option ℕ
  | .number (45 :: digits) => if digits = [48] then some 0 else none
  | .number digits =>
    if digits.all isDigit = true ∧ decimalValue digits < 2 ^ 64 then some (decimalValue digits)
    else none
  | _ => none

/-- The value as a signed integer of 64 bits. -/
def int64? : JsonTree → Option ℤ
  | .number (45 :: digits) =>
    if digits.all isDigit = true ∧ decimalValue digits ≤ 2 ^ 63 then some (-decimalValue digits)
    else none
  | .number digits =>
    if digits.all isDigit = true ∧ decimalValue digits < 2 ^ 63 then some (decimalValue digits)
    else none
  | _ => none

/-! ### The reader -/

/-- The words that are values. -/
inductive Word where
  | true
  | false
  | null
deriving DecidableEq, Repr

def Word.letters : Word → List UInt8
  | .true => [116, 114, 117, 101]
  | .false => [102, 97, 108, 115, 101]
  | .null => [110, 117, 108, 108]

def Word.value : Word → JsonTree
  | .true => .bool .true
  | .false => .bool .false
  | .null => .null

/-- An array or an object that is open; of an object either the name of a member has been read
or its value. -/
inductive Frame where
  | array (items : List JsonTree)
  | object (members : List (List UInt8 × JsonTree))
  | member (members : List (List UInt8 × JsonTree)) (key : List UInt8)

/-- What is due. -/
inductive Mode where
  | value
  /-- A value or the end of an array. -/
  | firstItem
  /-- A name or the end of an object. -/
  | firstKey
  | key
  | colon
  /-- A comma or an end. -/
  | after
  | string (isKey : Bool) (text : List UInt8) (escape : Escape)
  | number (literal : List UInt8)
  /-- A word of which `n` letters have been read. -/
  | word (w : Word) (n : ℕ)
  | done (v : JsonTree)

structure Reader where
  mode : Mode
  stack : List Frame

namespace Reader

def isBlank (c : UInt8) : Bool := c == 32 || c == 10 || c == 13 || c == 9

/-- A value is complete. -/
def complete (v : JsonTree) : List Frame → Option Reader
  | [] => some ⟨.done v, []⟩
  | .array items :: rest => some ⟨.after, .array (items ++ [v]) :: rest⟩
  | .member members key :: rest => some ⟨.after, .object (members ++ [(key, v)]) :: rest⟩
  | .object _ :: _ => none

def closeString (isKey : Bool) (text : List UInt8) (stack : List Frame) : Option Reader :=
  if isKey then
    match stack with
    | .object members :: rest => some ⟨.colon, .member members text :: rest⟩
    | _ => none
  else complete (.string text) stack

/-- The array or object that was just opened is closed. -/
def closeEmpty : List Frame → Option Reader
  | .array [] :: rest => complete (.array []) rest
  | .object [] :: rest => complete (.object []) rest
  | _ => none

def beginValue (c : UInt8) (stack : List Frame) : Option Reader :=
  if c = 34 then some ⟨.string false [] .plain, stack⟩
  else if c = 91 then some ⟨.firstItem, .array [] :: stack⟩
  else if c = 123 then some ⟨.firstKey, .object [] :: stack⟩
  else if c = 116 then some ⟨.word .true 1, stack⟩
  else if c = 102 then some ⟨.word .false 1, stack⟩
  else if c = 110 then some ⟨.word .null 1, stack⟩
  else if isDigit c || c == 45 then some ⟨.number [c], stack⟩
  else none

/-- After an item of an array or a member of an object. -/
def separate (c : UInt8) : List Frame → Option Reader
  | .array items :: rest =>
    if c = 44 then some ⟨.value, .array items :: rest⟩
    else if c = 93 then complete (.array items) rest
    else none
  | .object members :: rest =>
    if c = 44 then some ⟨.key, .object members :: rest⟩
    else if c = 125 then complete (.object members) rest
    else none
  | _ => none

/-- After a value; after the text only blanks are left. -/
def between (c : UInt8) (r : Reader) : Option Reader :=
  if isBlank c then some r
  else
    match r.mode with
    | .after => separate c r.stack
    | _ => none

def step (c : UInt8) (r : Reader) : Option Reader :=
  match r.mode with
  | .value => if isBlank c then some r else beginValue c r.stack
  | .firstItem =>
    if isBlank c then some r
    else if c = 93 then closeEmpty r.stack
    else beginValue c r.stack
  | .firstKey =>
    if isBlank c then some r
    else if c = 34 then some ⟨.string true [] .plain, r.stack⟩
    else if c = 125 then closeEmpty r.stack
    else none
  | .key =>
    if isBlank c then some r
    else if c = 34 then some ⟨.string true [] .plain, r.stack⟩
    else none
  | .colon =>
    if isBlank c then some r else if c = 58 then some ⟨.value, r.stack⟩ else none
  | .string isKey text escape =>
    if c = 34 ∧ escape = .plain then closeString isKey text r.stack
    else (stringStep c (text, escape)).map fun s => ⟨.string isKey s.1 s.2, r.stack⟩
  | .number literal =>
    if isNumberByte c then some ⟨.number (literal ++ [c]), r.stack⟩
    else if readsNumber literal then (complete (.number literal) r.stack).bind (between c)
    else none
  | .word w n =>
    if w.letters[n]? = some c then
      if n + 1 = w.letters.length then complete w.value r.stack else some ⟨.word w (n + 1), r.stack⟩
    else none
  | .after | .done _ => between c r

/-- What the reader has read when the text ends. -/
def result (r : Reader) : Option JsonTree :=
  match r.mode, r.stack with
  | .done v, [] => some v
  | .number literal, [] => if readsNumber literal then some (.number literal) else none
  | _, _ => none

end Reader

def reader : Machine Reader UInt8 := ⟨⟨.value, []⟩, Reader.step⟩

/-- The value that a text holds. -/
def read (text : List UInt8) : Option JsonTree := (reader.run text).bind Reader.result

/-! ### Inside and outside strings -/

namespace Reader
variable {c : UInt8} {r r' s : Reader} {stack : List Frame} {text : List UInt8}

def inString (r : Reader) : Bool :=
  match r.mode with
  | .string _ _ _ => true
  | _ => false

theorem inString_complete {v : JsonTree} (h : complete v stack = some r) : r.inString = false := by
  unfold complete at h
  split at h <;> cases h <;> rfl

theorem inString_closeEmpty (h : closeEmpty stack = some r) : r.inString = false := by
  unfold closeEmpty at h
  split at h
  · exact inString_complete h
  · exact inString_complete h
  · cases h

theorem inString_closeString {isKey : Bool} (h : closeString isKey text stack = some r) :
    r.inString = false := by
  cases isKey with
  | false => exact inString_complete h
  | true =>
    simp only [closeString, if_true] at h
    split at h <;> cases h
    rfl

theorem not_quote_of_isBlank (h : isBlank c = true) : c ≠ 34 ∧ c ≠ 92 := by
  constructor <;> rintro rfl <;> cases h

theorem separate_outside (h : separate c stack = some r) :
    c ≠ 34 ∧ c ≠ 92 ∧ r.inString = false := by
  unfold separate at h
  split at h
  · split_ifs at h with hcomma hend
    · cases h
      exact ⟨by rw [hcomma]; decide, by rw [hcomma]; decide, rfl⟩
    · exact ⟨by rw [hend]; decide, by rw [hend]; decide, inString_complete h⟩
  · split_ifs at h with hcomma hend
    · cases h
      exact ⟨by rw [hcomma]; decide, by rw [hcomma]; decide, rfl⟩
    · exact ⟨by rw [hend]; decide, by rw [hend]; decide, inString_complete h⟩
  · cases h

theorem between_outside (h : between c r = some r') (hr : r.inString = false) :
    c ≠ 34 ∧ c ≠ 92 ∧ r'.inString = false := by
  unfold between at h
  split at h
  · rename_i hblank
    cases h
    exact ⟨(not_quote_of_isBlank hblank).1, (not_quote_of_isBlank hblank).2, hr⟩
  · split at h
    · exact separate_outside h
    · cases h

theorem beginValue_outside (h : beginValue c stack = some r) (hc : c ≠ 34) :
    c ≠ 92 ∧ r.inString = false := by
  unfold beginValue at h
  split_ifs at h with h1 h2 h3 h4 h5 h6 h7
  all_goals first | exact absurd h1 hc | cases h
  all_goals refine ⟨?_, rfl⟩
  all_goals rintro rfl
  all_goals simp_all +decide

theorem not_quote_of_mem_letters {w : Word} {n : ℕ} (h : w.letters[n]? = some c) :
    c ≠ 34 ∧ c ≠ 92 := by
  have hletters : ∀ x ∈ w.letters, x ≠ 34 ∧ x ≠ 92 := by cases w <;> decide +kernel
  exact hletters c (List.mem_of_getElem? h)

/-- Outside a string a quote opens one, and there are no backslashes. -/
theorem step_outside (h : step c r = some r') (hr : r.inString = false) :
    c ≠ 92 ∧ (c = 34 → ∃ isKey, r' = ⟨.string isKey [] .plain, r.stack⟩) ∧
      (c ≠ 34 → r'.inString = false) := by
  have hother : c ≠ 34 ∧ c ≠ 92 ∧ r'.inString = false →
      c ≠ 92 ∧ (c = 34 → ∃ isKey, r' = ⟨.string isKey [] .plain, r.stack⟩) ∧
        (c ≠ 34 → r'.inString = false) :=
    fun h => ⟨h.2.1, fun hc => absurd hc h.1, fun _ => h.2.2⟩
  have hquote : ∀ isKey, c = 34 → r' = ⟨.string isKey [] .plain, r.stack⟩ →
      c ≠ 92 ∧ (c = 34 → ∃ isKey, r' = ⟨.string isKey [] .plain, r.stack⟩) ∧
        (c ≠ 34 → r'.inString = false) :=
    fun isKey hc hr' => ⟨by rw [hc]; decide, fun _ => ⟨isKey, hr'⟩, fun hne => absurd hc hne⟩
  have hvalue : beginValue c r.stack = some r' →
      c ≠ 92 ∧ (c = 34 → ∃ isKey, r' = ⟨.string isKey [] .plain, r.stack⟩) ∧
        (c ≠ 34 → r'.inString = false) := by
    intro hbegin
    by_cases hc : c = 34
    · subst hc
      exact hquote false rfl (Option.some.inj hbegin).symm
    · exact hother ⟨hc, beginValue_outside hbegin hc⟩
  have hblank : isBlank c = true → some r = some r' → c ≠ 34 ∧ c ≠ 92 ∧ r'.inString = false := by
    intro hblank hsame
    cases hsame
    exact ⟨(not_quote_of_isBlank hblank).1, (not_quote_of_isBlank hblank).2, hr⟩
  obtain ⟨mode, stack⟩ := r
  cases mode with
  | value =>
    simp only [step] at h
    split_ifs at h with hb
    · exact hother (hblank hb h)
    · exact hvalue h
  | firstItem =>
    simp only [step] at h
    split_ifs at h with hb hend
    · exact hother (hblank hb h)
    · exact hother ⟨by rw [hend]; decide, by rw [hend]; decide, inString_closeEmpty h⟩
    · exact hvalue h
  | firstKey =>
    simp only [step] at h
    split_ifs at h with hb hq hend
    · exact hother (hblank hb h)
    · exact hquote true hq (Option.some.inj h).symm
    · exact hother ⟨by rw [hend]; decide, by rw [hend]; decide, inString_closeEmpty h⟩
  | key =>
    simp only [step] at h
    split_ifs at h with hb hq
    · exact hother (hblank hb h)
    · exact hquote true hq (Option.some.inj h).symm
  | colon =>
    simp only [step] at h
    split_ifs at h with hb hcolon
    · exact hother (hblank hb h)
    · cases h
      exact hother ⟨by rw [hcolon]; decide, by rw [hcolon]; decide, rfl⟩
  | after => exact hother (between_outside h hr)
  | done v => exact hother (between_outside h hr)
  | string isKey text escape => cases hr
  | number literal =>
    simp only [step] at h
    split_ifs at h with hbyte hnumber
    · cases h
      refine hother ⟨?_, ?_, rfl⟩ <;> rintro rfl <;> cases hbyte
    · obtain ⟨mid, hmid, hnext⟩ := Option.bind_eq_some_iff.mp h
      exact hother (between_outside hnext (inString_complete hmid))
  | word w n =>
    simp only [step] at h
    split_ifs at h with hletter hlast
    · exact hother ⟨(not_quote_of_mem_letters hletter).1, (not_quote_of_mem_letters hletter).2,
        inString_complete h⟩
    · cases h
      exact hother ⟨(not_quote_of_mem_letters hletter).1, (not_quote_of_mem_letters hletter).2, rfl⟩

/-- Inside a string a quote closes it; a byte that is no backslash stays a byte. -/
theorem step_inside {isKey : Bool} (h : step c ⟨.string isKey text .plain, stack⟩ = some r') :
    (c = 34 → r'.inString = false) ∧
      (c ≠ 34 → c ≠ 92 → r' = ⟨.string isKey (text ++ [c]) .plain, stack⟩) := by
  simp only [step, and_true] at h
  split_ifs at h with hquote
  · exact ⟨fun _ => inString_closeString h, fun hne => absurd hquote hne⟩
  · refine ⟨fun hc => absurd hc hquote, fun _ hback => ?_⟩
    simp only [stringStep, hback, hquote, if_false, false_or] at h
    split_ifs at h
    · cases h
    · exact (Option.some.inj h).symm

/-- One reader is inside a string where the other is outside. -/
def Opposed (r s : Reader) : Prop :=
  r.inString = false ∧ (∃ isKey text stack, s = ⟨.string isKey text .plain, stack⟩) ∨
    (∃ isKey text stack, r = ⟨.string isKey text .plain, stack⟩) ∧ s.inString = false

theorem Opposed.symm (h : Opposed r s) : Opposed s r := by
  obtain ⟨hr, hs⟩ | ⟨hr, hs⟩ := h
  · exact .inr ⟨hs, hr⟩
  · exact .inl ⟨hs, hr⟩

theorem Opposed.step {s' : Reader} (h : Opposed r s) (hr : Reader.step c r = some r')
    (hs : Reader.step c s = some s') : Opposed r' s' := by
  wlog hside : r.inString = false generalizing r r' s s'
  · refine (this h.symm hs hr ?_).symm
    obtain ⟨hout, -⟩ | ⟨-, hout⟩ := h
    · exact absurd hout hside
    · exact hout
  obtain ⟨-, isKey, text, stack, rfl⟩ | ⟨⟨isKey, text, stack, rfl⟩, -⟩ := h
  · obtain ⟨hback, hquote, hother⟩ := step_outside hr hside
    obtain ⟨hclose, hstay⟩ := step_inside hs
    by_cases hc : c = 34
    · obtain ⟨isKey', rfl⟩ := hquote hc
      exact .inr ⟨⟨isKey', [], r.stack, rfl⟩, hclose hc⟩
    · exact .inl ⟨hother hc, isKey, text ++ [c], stack, hstay hc hback⟩
  · cases hside

theorem Opposed.run {s' : Reader} (h : Opposed r s) (hr : reader.runFrom r text = some r')
    (hs : reader.runFrom s text = some s') :
    Opposed r' s' := by
  induction text generalizing r s with
  | nil =>
    cases hr
    cases hs
    exact h
  | cons c rest ih =>
    obtain ⟨r₁, hr₁, hr⟩ := Option.bind_eq_some_iff.mp hr
    obtain ⟨s₁, hs₁, hs⟩ := Option.bind_eq_some_iff.mp hs
    exact ih (h.step hr₁ hs₁) hr hs

/-! ### Zeros -/

theorem stringStep_zero (s : List UInt8 × Escape) : stringStep 0 s = none := by
  obtain ⟨text, escape⟩ := s
  cases escape <;> rfl

theorem separate_zero (stack : List Frame) : separate 0 stack = none := by
  unfold separate
  split <;> rfl

theorem between_zero (r : Reader) : between 0 r = none := by
  simp only [between, show isBlank 0 = false from rfl, Bool.false_eq_true, if_false]
  split
  · exact separate_zero _
  · rfl

theorem step_zero (r : Reader) : step 0 r = none := by
  obtain ⟨mode, stack⟩ := r
  cases mode with
  | string isKey text escape =>
    show Option.map _ (stringStep 0 (text, escape)) = none
    rw [stringStep_zero]
    rfl
  | number literal =>
    simp only [step, show isNumberByte 0 = false from rfl, Bool.false_eq_true, if_false]
    split_ifs
    · cases complete (.number literal) stack <;> simp [between_zero]
    · rfl
  | word w n =>
    have hletter : w.letters[n]? ≠ some 0 := by
      intro h
      have hmem := List.mem_of_getElem? h
      cases w <;> exact absurd hmem (by decide)
    simp only [step, if_neg hletter]
  | after => exact between_zero _
  | done => exact between_zero _
  | _ => rfl

end Reader

theorem not_mem_zero_of_read {text : List UInt8} {v : JsonTree} (h : read text = some v) :
    0 ∉ text := by
  intro hmem
  obtain ⟨before, after, rfl⟩ := List.append_of_mem hmem
  obtain ⟨r, hr, -⟩ := Option.bind_eq_some_iff.mp h
  rw [Machine.run, Machine.runFrom_append] at hr
  obtain ⟨r', -, hr'⟩ := Option.bind_eq_some_iff.mp hr
  have hstep : reader.step 0 r' = none := Reader.step_zero r'
  rw [Machine.runFrom, hstep] at hr'
  cases hr'

end JsonTree

end SkaleConsensus.Library
