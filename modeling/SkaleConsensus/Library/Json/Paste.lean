import SkaleConsensus.Library.Json.Cut

/-! Writing JSON by hand.

Programs often put a JSON text together from pieces: a name, a number, byte strings between
quotes that are not escaped. This module reads such texts back. Names, numbers and plain
strings are read as they were written, and so is a list of them (`run_pastedList`). -/
namespace SkaleConsensus.Library.JsonTree
open Reader

/-- A byte string between quotes, or `null`. -/
def pasted : Option (List UInt8) → List UInt8
  | none => [110, 117, 108, 108]
  | some z => 34 :: z ++ [34]

def pastedList : List (Option (List UInt8)) → List UInt8
  | [] => []
  | item :: rest => pasted item ++ rest.flatMap fun item => 44 :: pasted item

/-- What is read where a plain byte string or `null` was pasted. -/
def ofPasted : Option (List UInt8) → JsonTree
  | none => .null
  | some z => .string z

/-- Nothing in it needs an escape. -/
def PlainItem (item : Option (List UInt8)) : Prop := ∀ z ∈ item, z.all isPlain = true

variable {stack : List Frame} {r r' : Reader}

/-! ### Numbers -/

theorem int64?_signedText {n : ℤ} (h : -2 ^ 63 ≤ n ∧ n < 2 ^ 63) :
    (number (signedText n)).int64? = some n := by
  have hall : (decimalText n.natAbs).all isDigit = true :=
    List.all_eq_true.mpr fun _ hd => isDigit_of_mem_decimalText hd
  unfold signedText
  split_ifs with hneg
  · show (if _ then _ else _) = _
    rw [decimalValue_decimalText, if_pos ⟨hall, by omega⟩]
    exact congrArg some (by omega)
  · unfold int64?
    split
    · next heq => exact absurd (JsonTree.number.inj heq) (decimalText_ne_minus _ _)
    · next heq =>
      obtain rfl := JsonTree.number.inj heq
      rw [decimalValue_decimalText, if_pos ⟨hall, by omega⟩]
      exact congrArg some (by omega)
    · next hnumber => exact absurd rfl (hnumber _)

theorem signedText_bytes (n : ℤ) : ∃ c rest, signedText n = c :: rest ∧
    (isDigit c = true ∨ c = 45) ∧ rest.all isNumberByte = true := by
  have hbyte : ∀ c ∈ decimalText n.natAbs, isNumberByte c = true := by
    intro c hc
    simp [isNumberByte, isDigit_of_mem_decimalText hc]
  unfold signedText
  split_ifs
  · exact ⟨45, _, rfl, .inr rfl, List.all_eq_true.mpr hbyte⟩
  · cases htext : decimalText n.natAbs with
    | nil => exact absurd htext (decimalText_ne_nil _)
    | cons c rest =>
      rw [htext] at hbyte
      refine ⟨c, rest, rfl, .inl (isDigit_of_mem_decimalText (htext ▸ List.mem_cons_self)), ?_⟩
      exact List.all_eq_true.mpr fun d hd => hbyte d (List.mem_cons_of_mem _ hd)

theorem int64?_range {v : JsonTree} {n : ℤ} (h : v.int64? = some n) : -2 ^ 63 ≤ n ∧ n < 2 ^ 63 := by
  unfold int64? at h
  split at h
  · split_ifs at h with hlt
    cases h
    omega
  · split_ifs at h with hlt
    cases h
    omega
  · cases h

/-! ### Pieces that are read as they were written -/

theorem runFrom_cons (c : UInt8) (text : List UInt8) (r : Reader) :
    reader.runFrom r (c :: text) = (step c r).bind fun r' => reader.runFrom r' text := rfl

/-- The inside of a string moves the reader as it moves the inner machine. -/
theorem run_string {isKey : Bool} {raw : List UInt8} {s s' : List UInt8 × Escape}
    (h : inside.runFrom s raw = some s') :
    reader.runFrom ⟨.string isKey s.1 s.2, stack⟩ raw = some ⟨.string isKey s'.1 s'.2, stack⟩ := by
  induction raw generalizing s with
  | nil =>
    cases h
    rfl
  | cons c rest ih =>
    obtain ⟨mid, hmid, hrest⟩ := Option.bind_eq_some_iff.mp h
    have hmid' : stringStep c s = some mid := hmid
    have hopen : ¬ (c = 34 ∧ s.2 = .plain) := by
      rintro ⟨rfl, hplain⟩
      have hback := (stringStep_quote hmid').1
      rw [hplain] at hback
      cases hback
    have hstep :
        step c ⟨.string isKey s.1 s.2, stack⟩ = some ⟨.string isKey mid.1 mid.2, stack⟩ := by
      simp only [step, if_neg hopen]
      rw [show (s.1, s.2) = s from rfl, hmid']
      rfl
    rw [runFrom_cons, hstep]
    exact ih hrest

theorem run_plain_string {isKey : Bool} {z : List UInt8} (h : z.all isPlain = true)
    (rest : List UInt8) :
    reader.runFrom ⟨.string isKey [] .plain, stack⟩ (z ++ 34 :: rest) =
      (closeString isKey z stack).bind fun r => reader.runFrom r rest := by
  have hrun : reader.runFrom ⟨.string isKey [] .plain, stack⟩ z =
      some ⟨.string isKey z .plain, stack⟩ := run_string (run_inside_plain h [])
  rw [Machine.runFrom_append, hrun, Option.bind_some, runFrom_cons]
  rfl

theorem run_name {members : List (List UInt8 × JsonTree)} {mode : Mode}
    (hmode : mode = .firstKey ∨ mode = .key) {name : List UInt8} (h : name.all isPlain = true)
    (text : List UInt8) :
    reader.runFrom ⟨mode, .object members :: stack⟩ (34 :: name ++ 34 :: 58 :: text) =
      reader.runFrom ⟨.value, .member members name :: stack⟩ text := by
  have hopen : step 34 ⟨mode, .object members :: stack⟩ =
      some ⟨.string true [] .plain, .object members :: stack⟩ := by
    obtain rfl | rfl := hmode <;> rfl
  rw [List.cons_append, runFrom_cons, hopen, Option.bind_some, run_plain_string h]
  rfl

theorem run_number_bytes {literal : List UInt8} (h : literal.all isNumberByte = true)
    (before : List UInt8) :
    reader.runFrom ⟨.number before, stack⟩ literal = some ⟨.number (before ++ literal), stack⟩ := by
  induction literal generalizing before with
  | nil => simp [Machine.runFrom]
  | cons c rest ih =>
    rw [List.all_cons, Bool.and_eq_true] at h
    have hstep : step c ⟨.number before, stack⟩ = some ⟨.number (before ++ [c]), stack⟩ := by
      simp only [step, h.1, if_true]
    rw [runFrom_cons, hstep, Option.bind_some, ih h.2]
    simp

theorem beginValue_number {c : UInt8} (h : isDigit c = true ∨ c = 45) :
    step c ⟨.value, stack⟩ = some ⟨.number [c], stack⟩ := by
  have hne : ∀ x : UInt8, isDigit x = false → x ≠ 45 → c ≠ x := by
    rintro x hdigit hminus rfl
    obtain h | h := h
    · rw [hdigit] at h
      cases h
    · exact hminus h
  have hblank : isBlank c = false := by
    simp [isBlank, hne 32 rfl (by decide), hne 10 rfl (by decide), hne 13 rfl (by decide),
      hne 9 rfl (by decide)]
  simp only [step, hblank, Bool.false_eq_true, if_false, beginValue, hne 34 rfl (by decide),
    hne 91 rfl (by decide), hne 123 rfl (by decide), hne 116 rfl (by decide),
    hne 102 rfl (by decide), hne 110 rfl (by decide)]
  rw [if_pos (by simpa using h)]

theorem run_number {c : UInt8} {rest : List UInt8} (hbytes : rest.all isNumberByte = true)
    (hfirst : isDigit c = true ∨ c = 45) (hnumber : readsNumber (c :: rest) = true)
    (text : List UInt8) :
    reader.runFrom ⟨.value, stack⟩ (c :: rest ++ 44 :: text) =
      ((complete (.number (c :: rest)) stack).bind (between 44)).bind
        fun r => reader.runFrom r text := by
  have hcomma : step 44 ⟨.number (c :: rest), stack⟩ =
      (complete (.number (c :: rest)) stack).bind (between 44) := by
    simp only [step]
    rw [if_neg (by decide), if_pos hnumber]
  rw [List.cons_append, runFrom_cons, beginValue_number hfirst, Option.bind_some,
    Machine.runFrom_append, run_number_bytes hbytes, Option.bind_some, runFrom_cons]
  exact congrArg (Option.bind · _) hcomma

section Lists
variable {items : List JsonTree}

/-- Where an item of an array is due. -/
def ItemDue (mode : Mode) : Prop := mode = .value ∨ mode = .firstItem

theorem step_item {mode : Mode} (hmode : ItemDue mode) {c : UInt8} (hblank : isBlank c = false)
    (hend : c ≠ 93) : step c ⟨mode, stack⟩ = beginValue c stack := by
  obtain rfl | rfl := hmode
  · simp [step, hblank]
  · simp [step, hblank, hend]

theorem run_pasted {mode : Mode} (hmode : ItemDue mode) {item : Option (List UInt8)}
    (h : PlainItem item) (text : List UInt8) :
    reader.runFrom ⟨mode, .array items :: stack⟩ (pasted item ++ text) =
      reader.runFrom ⟨.after, .array (items ++ [ofPasted item]) :: stack⟩ text := by
  cases item with
  | none =>
    show reader.runFrom _ (110 :: _) = _
    rw [runFrom_cons, step_item hmode rfl (by decide)]
    rfl
  | some z =>
    show reader.runFrom _ (34 :: z ++ [34] ++ text) = _
    rw [List.cons_append, List.cons_append, runFrom_cons, step_item hmode rfl (by decide),
      List.append_assoc]
    exact run_plain_string (h z rfl) text

theorem run_pasted_rest {rest : List (Option (List UInt8))} (h : ∀ item ∈ rest, PlainItem item)
    (text : List UInt8) :
    reader.runFrom ⟨.after, .array items :: stack⟩
        ((rest.flatMap fun item => 44 :: pasted item) ++ text) =
      reader.runFrom ⟨.after, .array (items ++ rest.map ofPasted) :: stack⟩ text := by
  induction rest generalizing items with
  | nil => simp
  | cons item rest ih =>
    rw [List.flatMap_cons, List.append_assoc, List.cons_append, runFrom_cons]
    show reader.runFrom ⟨.value, .array items :: stack⟩ _ = _
    rw [run_pasted (.inl rfl) (h item List.mem_cons_self),
      ih fun item' hitem' => h item' (List.mem_cons_of_mem _ hitem')]
    simp

theorem run_pastedList {list : List (Option (List UInt8))} (h : ∀ item ∈ list, PlainItem item)
    (text : List UInt8) :
    reader.runFrom ⟨.firstItem, .array [] :: stack⟩ (pastedList list ++ 93 :: text) =
      (complete (.array (list.map ofPasted)) stack).bind fun r => reader.runFrom r text := by
  cases list with
  | nil => rfl
  | cons item rest =>
    rw [pastedList, List.append_assoc, run_pasted (.inr rfl) (h item List.mem_cons_self),
      run_pasted_rest fun item' hitem' => h item' (List.mem_cons_of_mem _ hitem')]
    rfl

end Lists

end SkaleConsensus.Library.JsonTree
