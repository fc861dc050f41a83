import SkaleConsensus.Library.Json.Reader

/-! Cutting and pasting JSON texts.

An object is read after other members exactly where it is read alone (`runFrom_key_iff`). The
last member of a text can hence be cut off at a comma if and only if what follows the comma is
that member (`read_cut_iff`): a comma in a string or in an array cannot be followed by the text
of a member, and one in an inner object leaves the outer one open. -/
namespace SkaleConsensus.Library.JsonTree

namespace Reader
variable {c : UInt8} {r r' : Reader} {stack : List Frame} {text : List UInt8} {v : JsonTree}
  {members : List (List UInt8 × JsonTree)}

/-! ### Ends -/

/-- Only blanks may follow. -/
theorem run_done (v : JsonTree) (stack : List Frame) (text : List UInt8) :
    reader.runFrom ⟨.done v, stack⟩ text =
      if text.all isBlank then some ⟨.done v, stack⟩ else none := by
  induction text with
  | nil => rfl
  | cons c rest ih =>
    have hstep : reader.step c ⟨.done v, stack⟩ =
        if isBlank c then some ⟨.done v, stack⟩ else none := rfl
    rw [Machine.runFrom, hstep, List.all_cons]
    cases hc : isBlank c with
    | true => simpa using ih
    | false => rfl

theorem eq_of_run_done (h : reader.runFrom ⟨.done v, stack⟩ text = some r) :
    text.all isBlank = true ∧ r = ⟨.done v, stack⟩ := by
  rw [run_done] at h
  split_ifs at h with hblank
  exact ⟨hblank, (Option.some.inj h).symm⟩

/-- A text that holds an object ends outside of everything. -/
theorem result_eq_object :
    r.result = some (.object members) ↔ r = ⟨.done (.object members), []⟩ := by
  constructor
  · intro h
    obtain ⟨mode, stack⟩ := r
    unfold result at h
    split at h
    · rename_i hmode hstack
      rw [show mode = _ from hmode, show stack = _ from hstack, Option.some.inj h]
    · split_ifs at h
      cases h
    · cases h
  · rintro rfl
    rfl

/-- One reader takes for a name what the other takes for an item of an array. -/
inductive Astray : Reader → Reader → Prop
  | due {s t : List Frame} : Astray ⟨.key, s⟩ ⟨.value, t⟩
  | string {s t : List Frame} (text : List UInt8) (escape : Escape) :
      Astray ⟨.string true text escape, s⟩ ⟨.string false text escape, t⟩
  | read {s : List Frame} {r : Reader} (h : r.mode = .after ∨ ∃ v, r.mode = .done v) :
      Astray ⟨.colon, s⟩ r

theorem mode_complete (h : complete v stack = some r) :
    r.mode = .after ∨ ∃ v, r.mode = .done v := by
  unfold complete at h
  split at h <;> cases h
  · exact .inr ⟨_, rfl⟩
  · exact .inl rfl
  · exact .inl rfl

theorem step_of_isBlank (h : isBlank c = true) (hmode : r.mode = .after ∨ ∃ v, r.mode = .done v) :
    step c r = some r := by
  obtain hmode | ⟨v, hmode⟩ := hmode
  · simp [step, between, hmode, h]
  · simp [step, between, hmode, h]

theorem run_blanks (h : text.all isBlank = true) (hmode : r.mode = .after ∨ ∃ v, r.mode = .done v) :
    reader.runFrom r text = some r := by
  induction text with
  | nil => rfl
  | cons c rest ih =>
    rw [List.all_cons, Bool.and_eq_true] at h
    have hstep : reader.step c r = some r := step_of_isBlank h.1 hmode
    rw [Machine.runFrom, hstep]
    exact ih h.2

theorem step_colon (hmode : r.mode = .after ∨ ∃ v, r.mode = .done v) : step 58 r = none := by
  obtain hmode | ⟨v, hmode⟩ := hmode
  · simp only [step, between, hmode]
    rw [if_neg (by decide)]
    unfold separate
    split
    · rfl
    · rfl
    · rfl
  · simp only [step, between, hmode]
    rfl

theorem Astray.step {s s' : Reader} (h : Astray r s) (hr : Reader.step c r = some r')
    (hs : Reader.step c s = some s') : Astray r' s' := by
  cases h with
  | due =>
    simp only [Reader.step] at hr hs
    split_ifs at hr hs with hblank hquote
    · cases hr
      cases hs
      exact .due
    · subst hquote
      cases hr
      cases hs
      exact .string [] .plain
  | string text escape =>
    simp only [Reader.step] at hr hs
    split_ifs at hr hs
    · simp only [closeString, if_true] at hr
      split at hr <;> cases hr
      exact .read (mode_complete hs)
    · obtain ⟨mid, hmid, rfl⟩ := Option.map_eq_some_iff.mp hr
      rw [hmid] at hs
      cases hs
      exact .string _ _
  | read hmode =>
    simp only [Reader.step] at hr
    split_ifs at hr with hblank hcolon
    · cases hr
      rw [step_of_isBlank hblank hmode] at hs
      cases hs
      exact .read hmode
    · subst hcolon
      rw [step_colon hmode] at hs
      cases hs

theorem Astray.run {s s' : Reader} (h : Astray r s) (hr : reader.runFrom r text = some r')
    (hs : reader.runFrom s text = some s') :
    Astray r' s' := by
  induction text generalizing r s with
  | nil =>
    cases hr
    cases hs
    exact h
  | cons c rest ih =>
    obtain ⟨r₁, hr₁, hr⟩ := Option.bind_eq_some_iff.mp hr
    obtain ⟨s₁, hs₁, hs⟩ := Option.bind_eq_some_iff.mp hs
    exact ih (h.step hr₁ hs₁) hr hs

theorem between_comma (h : between 44 r = some r') :
    (∃ stack, r' = ⟨.value, stack⟩) ∧ between 125 r = none ∨
      ∃ members rest, r' = ⟨.key, .object members :: rest⟩ ∧
        between 125 r = complete (.object members) rest := by
  have hnext := h
  unfold between at hnext
  rw [if_neg (by decide)] at hnext
  split at hnext
  · rename_i hmode
    have hclose : between 125 r = separate 125 r.stack := by
      unfold between
      rw [if_neg (by decide), hmode]
    unfold separate at hnext
    split at hnext
    · rename_i items rest hstack
      refine .inl ⟨⟨_, (Option.some.inj hnext).symm⟩, ?_⟩
      rw [hclose, hstack]
      rfl
    · rename_i members rest hstack
      refine .inr ⟨members, rest, (Option.some.inj hnext).symm, ?_⟩
      rw [hclose, hstack]
      rfl
    · cases hnext
  · cases hnext

/-- A comma is part of a string, or an item or a member is due. What a brace would do in its
place is told by that. -/
theorem step_comma (h : step 44 r = some r') :
    (∃ isKey text stack, r' = ⟨.string isKey (text ++ [44]) .plain, stack⟩ ∧
      step 125 r = some ⟨.string isKey (text ++ [125]) .plain, stack⟩) ∨
    (∃ stack, r' = ⟨.value, stack⟩) ∧ step 125 r = none ∨
    ∃ members rest, r' = ⟨.key, .object members :: rest⟩ ∧
      step 125 r = complete (.object members) rest := by
  obtain ⟨mode, stack⟩ := r
  cases mode with
  | value | firstItem | firstKey | key | colon => cases h
  | after | done => exact .inr (between_comma h)
  | string isKey text escape =>
    left
    cases escape with
    | plain => exact ⟨isKey, text, stack, (Option.some.inj h).symm, rfl⟩
    | backslash | hex | low | lowU => cases h
  | number literal =>
    right
    have hbrace : step 125 ⟨.number literal, stack⟩ =
        if readsNumber literal then (complete (.number literal) stack).bind (between 125)
        else none := rfl
    simp only [step] at h
    rw [if_neg (by decide)] at h
    split_ifs at h with hnumber
    obtain ⟨mid, hmid, hnext⟩ := Option.bind_eq_some_iff.mp h
    rw [hbrace, if_pos hnumber, hmid]
    exact between_comma hnext
  | word w n =>
    simp only [step] at h
    split_ifs at h with hletter
    all_goals
      have hletters : ∀ x ∈ w.letters, x ≠ 44 := by cases w <;> decide +kernel
      exact absurd rfl (hletters 44 (List.mem_of_getElem? hletter))

theorem complete_eq_done {w : JsonTree} {stack' : List Frame}
    (h : complete v stack = some ⟨.done w, stack'⟩) : stack = [] ∧ v = w := by
  unfold complete at h
  split at h <;> cases h
  exact ⟨rfl, rfl⟩

/-- Where an object can be closed a comma can only be followed by a member. -/
theorem step_comma_of_close (hclose : step 125 r = some ⟨.done (.object members), stack⟩)
    (hcomma : step 44 r = some r') :
    r' = ⟨.key, [.object members]⟩ := by
  obtain ⟨_, _, _, -, hbrace⟩ | ⟨-, hbrace⟩ | ⟨members', rest, hr', hbrace⟩ := step_comma hcomma
  · rw [hbrace] at hclose
    cases hclose
  · rw [hbrace] at hclose
    cases hclose
  · rw [hbrace] at hclose
    obtain ⟨hrest, hsame⟩ := complete_eq_done hclose
    cases hsame
    rw [hr', hrest]

/-! ### Plugging an object into a text

A reader of an object is put on top of other frames, its members after other members. -/

/-- At the bottom is an array, or an object. -/
inductive Rooted : (array : Bool) → List Frame → Prop
  | array (items : List JsonTree) : Rooted true [.array items]
  | object (x : List (List UInt8 × JsonTree)) : Rooted false [.object x]
  | member (x : List (List UInt8 × JsonTree)) (key : List UInt8) : Rooted false [.member x key]
  | cons (f : Frame) {array : Bool} {rest : List Frame} (h : Rooted array rest) :
      Rooted array (f :: rest)

/-- What is at the bottom is open, and an object not just opened. -/
structure Inner (array : Bool) (r : Reader) : Prop where
  rooted : Rooted array r.stack
  tail : r.mode = .firstItem ∨ r.mode = .firstKey →
    Rooted array r.stack.tail ∨ array = true ∧ r.stack = [.array []]
  not_done : ∀ v, r.mode ≠ .done v

/-- The text ends with what was at the bottom. -/
def Ends : (array : Bool) → UInt8 → Reader → Prop
  | true, _, r => ∃ items, r = ⟨.done (.array items), []⟩
  | false, c, r => c = 125 ∧ ∃ x, r = ⟨.done (.object x), []⟩

theorem Ends.eq_of_run {array : Bool} (h : Ends array c r) (hrun : reader.runFrom r text = some r')
    : r' = r := by
  cases array with
  | true =>
    obtain ⟨items, rfl⟩ := h
    exact (eq_of_run_done hrun).2
  | false =>
    obtain ⟨-, x, rfl⟩ := h
    exact (eq_of_run_done hrun).2

variable {array : Bool}

theorem inner_of_complete (hstack : Rooted array stack) (h : complete v stack = some r) :
    Inner array r := by
  cases hstack with
  | array items =>
    cases h
    exact ⟨.array _, by simp, nofun⟩
  | object x => cases h
  | member x key =>
    cases h
    exact ⟨.object _, by simp, nofun⟩
  | cons f hrest =>
    cases f <;> cases h
    · exact ⟨.cons _ hrest, by simp, nofun⟩
    · exact ⟨.cons _ hrest, by simp, nofun⟩

/-- A value that ends leaves open what is at the bottom, or is that. -/
theorem inner_of_separate (hstack : Rooted array stack) (h : separate c stack = some r) :
    Inner array r ∨ Ends array c r := by
  cases hstack with
  | array items =>
    simp only [separate] at h
    split_ifs at h <;> cases h
    · exact .inl ⟨.array items, by simp, nofun⟩
    · exact .inr ⟨items, rfl⟩
  | object x =>
    simp only [separate] at h
    split_ifs at h with hcomma hbrace <;> cases h
    · exact .inl ⟨.object x, by simp, nofun⟩
    · exact .inr ⟨hbrace, x, rfl⟩
  | member x key => cases h
  | cons f hrest =>
    left
    cases f with
    | array items =>
      simp only [separate] at h
      split_ifs at h
      · cases h
        exact ⟨.cons _ hrest, by simp, nofun⟩
      · exact inner_of_complete hrest h
    | object x =>
      simp only [separate] at h
      split_ifs at h
      · cases h
        exact ⟨.cons _ hrest, by simp, nofun⟩
      · exact inner_of_complete hrest h
    | member x key => cases h

theorem inner_of_between (hr : Inner array r) (h : between c r = some r') :
    Inner array r' ∨ Ends array c r' := by
  unfold between at h
  split at h
  · cases h
    exact .inl hr
  · split at h
    · exact inner_of_separate hr.rooted h
    · cases h

theorem inner_of_closeEmpty (hstack : Rooted array stack.tail ∨ array = true ∧ stack = [.array []])
    (h : closeEmpty stack = some r) : Inner array r ∨ Ends array c r := by
  obtain hstack | ⟨rfl, rfl⟩ := hstack
  · left
    unfold closeEmpty at h
    split at h
    · exact inner_of_complete hstack h
    · exact inner_of_complete hstack h
    · cases h
  · cases h
    exact .inr ⟨[], rfl⟩

theorem inner_of_beginValue (hstack : Rooted array stack) (h : beginValue c stack = some r) :
    Inner array r := by
  unfold beginValue at h
  split_ifs at h <;> cases h
  · exact ⟨hstack, by simp, nofun⟩
  · exact ⟨.cons _ hstack, fun _ => .inl hstack, nofun⟩
  · exact ⟨.cons _ hstack, fun _ => .inl hstack, nofun⟩
  all_goals exact ⟨hstack, by simp, nofun⟩

theorem inner_of_closeString {isKey : Bool} (hstack : Rooted array stack)
    (h : closeString isKey text stack = some r) : Inner array r := by
  cases isKey with
  | false => exact inner_of_complete hstack h
  | true =>
    simp only [closeString, if_true] at h
    split at h
    · cases h
      cases hstack with
      | object x => exact ⟨.member _ _, by simp, by simp⟩
      | cons f hrest => exact ⟨.cons _ hrest, by simp, by simp⟩
    · cases h

/-- What is at the bottom stays open, or the whole text ends with it. -/
theorem Inner.step (hr : Inner array r) (h : Reader.step c r = some r') :
    Inner array r' ∨ Ends array c r' := by
  obtain ⟨mode, stack⟩ := r
  cases mode with
  | value =>
    simp only [Reader.step] at h
    split_ifs at h
    · cases h
      exact .inl hr
    · exact .inl (inner_of_beginValue hr.rooted h)
  | firstItem =>
    simp only [Reader.step] at h
    split_ifs at h
    · cases h
      exact .inl hr
    · exact inner_of_closeEmpty (hr.tail (.inl rfl)) h
    · exact .inl (inner_of_beginValue hr.rooted h)
  | firstKey =>
    simp only [Reader.step] at h
    split_ifs at h
    · cases h
      exact .inl hr
    · cases h
      exact .inl ⟨hr.rooted, by simp, by simp⟩
    · exact inner_of_closeEmpty (hr.tail (.inr rfl)) h
  | key | colon =>
    simp only [Reader.step] at h
    split_ifs at h <;> cases h
    · exact .inl hr
    · exact .inl ⟨hr.rooted, by simp, by simp⟩
  | after => exact inner_of_between hr h
  | done v => exact absurd rfl (hr.not_done v)
  | string isKey text escape =>
    simp only [Reader.step] at h
    split_ifs at h
    · exact .inl (inner_of_closeString hr.rooted h)
    · obtain ⟨s, -, rfl⟩ := Option.map_eq_some_iff.mp h
      exact .inl ⟨hr.rooted, by simp, by simp⟩
  | number literal =>
    simp only [Reader.step] at h
    split_ifs at h
    · cases h
      exact .inl ⟨hr.rooted, by simp, by simp⟩
    · obtain ⟨mid, hmid, hnext⟩ := Option.bind_eq_some_iff.mp h
      exact inner_of_between (inner_of_complete hr.rooted hmid) hnext
  | word w n =>
    simp only [Reader.step] at h
    split_ifs at h
    · exact .inl (inner_of_complete hr.rooted h)
    · cases h
      exact .inl ⟨hr.rooted, by simp, by simp⟩

theorem Inner.run (hr : Inner array r) (h : reader.runFrom r text = some r') :
    Inner array r' ∨ ∃ c, Ends array c r' := by
  induction text generalizing r with
  | nil =>
    cases h
    exact .inl hr
  | cons c rest ih =>
    obtain ⟨mid, hmid, hrest⟩ := Option.bind_eq_some_iff.mp h
    obtain hinner | hends := hr.step hmid
    · exact ih hinner hrest
    · exact .inr ⟨c, hends.eq_of_run hrest ▸ hends⟩

section Plug
variable (members : List (List UInt8 × JsonTree)) (base : List Frame)

def plugStack : List Frame → List Frame
  | [] => base
  | [.object x] => .object (members ++ x) :: base
  | [.member x key] => .member (members ++ x) key :: base
  | f :: rest => f :: plugStack rest

def plug (r : Reader) : Option Reader :=
  match r.mode with
  | .done (.object x) => complete (.object (members ++ x)) base
  | .done _ => none
  | mode => some ⟨mode, plugStack members base r.stack⟩

variable {members base}

theorem Inner.rooted_tail (hr : Inner false r) (h : r.mode = .firstItem ∨ r.mode = .firstKey) :
    Rooted false r.stack.tail :=
  (hr.tail h).resolve_right (nomatch ·.1)

theorem plugStack_cons {rest : List Frame} (f : Frame) (h : Rooted false rest) :
    plugStack members base (f :: rest) = f :: plugStack members base rest := by
  cases h with
  | object | member | cons => cases f <;> rfl

variable (members base) in
theorem Inner.plug (hr : Inner false r) :
    Reader.plug members base r = some ⟨r.mode, plugStack members base r.stack⟩ := by
  unfold Reader.plug
  split
  · rename_i hmode
    exact absurd hmode (hr.not_done _)
  · rename_i hmode
    exact absurd hmode (hr.not_done _)
  · rfl

theorem complete_plugStack (hstack : Rooted false stack) (v : JsonTree) :
    complete v (plugStack members base stack) =
      (complete v stack).bind (Reader.plug members base) := by
  cases hstack with
  | object x => rfl
  | member x key => simp [plugStack, complete, Reader.plug]
  | cons f hrest =>
    rw [plugStack_cons f hrest]
    cases f <;> simp [complete, Reader.plug, plugStack_cons _ hrest]

theorem separate_plugStack (hstack : Rooted false stack) (c : UInt8) :
    separate c (plugStack members base stack) =
      (separate c stack).bind (Reader.plug members base) := by
  cases hstack with
  | object x =>
    simp only [plugStack, separate]
    split_ifs <;> simp [complete, Reader.plug, plugStack]
  | member x key => rfl
  | cons f hrest =>
    rw [plugStack_cons f hrest]
    cases f with
    | array | object =>
      simp only [separate]
      split_ifs
      · simp [Reader.plug, plugStack_cons _ hrest]
      · exact complete_plugStack hrest _
      · rfl
    | member => rfl

theorem between_plugStack (hr : Inner false r) (c : UInt8) :
    between c ⟨r.mode, plugStack members base r.stack⟩ =
      (between c r).bind (Reader.plug members base) := by
  unfold between
  split_ifs
  · exact (hr.plug _ _).symm
  · dsimp only
    split
    · exact separate_plugStack hr.rooted c
    · rfl

theorem closeEmpty_plugStack (hstack : Rooted false stack.tail) :
    closeEmpty (plugStack members base stack) =
      (closeEmpty stack).bind (Reader.plug members base) := by
  cases stack with
  | nil => cases hstack
  | cons f rest =>
    have hrest : Rooted false rest := hstack
    rw [plugStack_cons f hrest]
    cases f with
    | array items =>
      cases items with
      | nil => exact complete_plugStack hrest _
      | cons => rfl
    | object x =>
      cases x with
      | nil => exact complete_plugStack hrest _
      | cons => rfl
    | member => rfl

theorem beginValue_plugStack (hstack : Rooted false stack) (c : UInt8) :
    beginValue c (plugStack members base stack) =
      (beginValue c stack).bind (Reader.plug members base) := by
  unfold beginValue
  split_ifs <;> simp [Reader.plug, plugStack_cons _ hstack]

theorem closeString_plugStack (hstack : Rooted false stack) (isKey : Bool) (text : List UInt8) :
    closeString isKey text (plugStack members base stack) =
      (closeString isKey text stack).bind (Reader.plug members base) := by
  cases isKey with
  | false => exact complete_plugStack hstack _
  | true =>
    cases hstack with
    | object x => rfl
    | member x key => rfl
    | cons f hrest =>
      rw [plugStack_cons f hrest]
      cases f <;> simp [closeString, Reader.plug, plugStack_cons _ hrest]

theorem step_plugStack (hr : Inner false r) (c : UInt8) :
    step c ⟨r.mode, plugStack members base r.stack⟩ =
      (step c r).bind (Reader.plug members base) := by
  have hsame := hr.plug members base
  obtain ⟨mode, stack⟩ := r
  cases mode with
  | value =>
    simp only [step]
    split_ifs
    · exact hsame.symm
    · exact beginValue_plugStack hr.rooted c
  | firstItem =>
    simp only [step]
    split_ifs
    · exact hsame.symm
    · exact closeEmpty_plugStack (hr.rooted_tail (.inl rfl))
    · exact beginValue_plugStack hr.rooted c
  | firstKey =>
    simp only [step]
    split_ifs
    · exact hsame.symm
    · rfl
    · exact closeEmpty_plugStack (hr.rooted_tail (.inr rfl))
    · rfl
  | key | colon =>
    simp only [step]
    split_ifs
    · exact hsame.symm
    · rfl
    · rfl
  | after => exact between_plugStack hr c
  | done v => exact absurd rfl (hr.not_done v)
  | string isKey text escape =>
    simp only [step]
    split_ifs
    · exact closeString_plugStack hr.rooted isKey text
    · cases stringStep c (text, escape) <;> rfl
  | number literal =>
    simp only [step]
    split_ifs
    · rfl
    · rw [complete_plugStack hr.rooted]
      cases hmid : complete (.number literal) stack with
      | none => rfl
      | some mid =>
        have hinner := inner_of_complete hr.rooted hmid
        rw [Option.bind_some, hinner.plug _ _]
        exact between_plugStack hinner c
    · rfl
  | word w n =>
    simp only [step]
    split_ifs
    · exact complete_plugStack hr.rooted _
    · rfl
    · rfl

variable (members base) in
/-- An object is read on top of other frames as it is read alone. -/
theorem run_plug (hr : Inner false r) {text : List UInt8} (h : reader.runFrom r text = some r') :
    reader.runFrom ⟨r.mode, plugStack members base r.stack⟩ text =
      Reader.plug members base r' := by
  induction text generalizing r with
  | nil =>
    cases h
    exact (hr.plug _ _).symm
  | cons c rest ih =>
    obtain ⟨mid, hmid, hrest⟩ := Option.bind_eq_some_iff.mp h
    have hnext : reader.step c ⟨r.mode, plugStack members base r.stack⟩ =
        Reader.plug members base mid := by
      rw [show reader.step = step from rfl, step_plugStack hr c,
        show step c r = some mid from hmid, Option.bind_some]
    rw [Machine.runFrom, hnext]
    obtain hinner | ⟨-, x, rfl⟩ := hr.step hmid
    · rw [hinner.plug _ _]
      exact ih hinner hrest
    · obtain ⟨hblank, rfl⟩ := eq_of_run_done hrest
      cases hend : Reader.plug members base ⟨.done (.object x), []⟩ with
      | none => rfl
      | some r₀ => exact run_blanks hblank (mode_complete hend)

variable (members) in
/-- After other members an object is read exactly where it is read alone. -/
theorem run_plug_nil (hr : Inner false r) (text : List UInt8) :
    reader.runFrom ⟨r.mode, plugStack members [] r.stack⟩ text =
      (reader.runFrom r text).bind (Reader.plug members []) := by
  induction text generalizing r with
  | nil => exact (hr.plug _ _).symm
  | cons c rest ih =>
    have hnext : reader.step c ⟨r.mode, plugStack members [] r.stack⟩ =
        (reader.step c r).bind (Reader.plug members []) := step_plugStack hr c
    rw [Machine.runFrom, hnext, Machine.runFrom]
    cases hmid : reader.step c r with
    | none => rfl
    | some mid =>
      obtain hinner | ⟨-, x, rfl⟩ := hr.step hmid
      · rw [Option.bind_some, hinner.plug _ _]
        exact ih hinner
      · rw [Option.bind_some, Option.bind_some, run_done]
        have hend : Reader.plug members [] ⟨.done (.object x), []⟩ =
            some ⟨.done (.object (members ++ x)), []⟩ := rfl
        rw [hend, Option.bind_some, run_done]
        split_ifs <;> rfl

end Plug

end Reader

/-! ### Cutting a text at a comma -/

open Reader

variable {text : List UInt8} {x : List (List UInt8 × JsonTree)}

/-- An object with members begins as one that has members goes on. -/
theorem run_firstKey (hx : x ≠ []) :
    reader.runFrom ⟨.firstKey, [.object []]⟩ text = some ⟨.done (.object x), []⟩ ↔
      reader.runFrom ⟨.key, [.object []]⟩ text = some ⟨.done (.object x), []⟩ := by
  induction text with
  | nil => simp [Machine.runFrom]
  | cons c rest ih =>
    have hfirst : reader.step c ⟨.firstKey, [.object []]⟩ =
        if isBlank c then some ⟨.firstKey, [.object []]⟩
        else if c = 34 then some ⟨.string true [] .plain, [.object []]⟩
        else if c = 125 then some ⟨.done (.object []), []⟩
        else none := rfl
    have hkey : reader.step c ⟨.key, [.object []]⟩ =
        if isBlank c then some ⟨.key, [.object []]⟩
        else if c = 34 then some ⟨.string true [] .plain, [.object []]⟩
        else none := rfl
    rw [Machine.runFrom, Machine.runFrom, hfirst, hkey]
    split_ifs
    · exact ih
    · exact Iff.rfl
    · rw [Option.bind_some, run_done]
      refine ⟨fun h => ?_, fun h => by cases h⟩
      split_ifs at h
      simp only [Option.some.injEq, Reader.mk.injEq, Mode.done.injEq, JsonTree.object.injEq] at h
      exact absurd h.1.symm hx
    · exact Iff.rfl

variable {members : List (List UInt8 × JsonTree)}

theorem read_eq_object :
    read text = some (.object members) ↔
      reader.run text = some ⟨.done (.object members), []⟩ := by
  simp [read, Option.bind_eq_some_iff, result_eq_object]

theorem read_brace_eq_object :
    read (123 :: text) = some (.object members) ↔
      reader.runFrom ⟨.firstKey, [.object []]⟩ text = some ⟨.done (.object members), []⟩ :=
  read_eq_object

/-! ### The braces of an object -/

namespace Reader
variable {c : UInt8} {r r' : Reader} {members : List (List UInt8 × JsonTree)} {text : List UInt8}

/-- The text is a string, a number or a word. -/
def Flat (r : Reader) : Prop :=
  r.stack = [] ∧ match r.mode with
    | .string false _ _ | .number _ | .word _ _ => True
    | .done v => ∀ members, v ≠ .object members
    | _ => False

theorem flat_of_complete {v : JsonTree} (h : complete v [] = some r)
    (hv : ∀ members, v ≠ .object members) : Flat r := by
  cases h
  exact ⟨rfl, hv⟩

theorem Flat.between (hr : Flat r) (h : Reader.between c r = some r') : Flat r' := by
  have hstack := hr.1
  unfold Reader.between at h
  split at h
  · cases h
    exact hr
  · split at h
    · rw [hstack] at h
      cases h
    · cases h

theorem Flat.step (hr : Flat r) (h : Reader.step c r = some r') : Flat r' := by
  obtain ⟨mode, stack⟩ := r
  obtain rfl : stack = [] := hr.1
  cases mode with
  | string isKey text escape =>
    cases isKey with
    | true => exact absurd hr.2 id
    | false =>
      simp only [Reader.step] at h
      split_ifs at h
      · exact flat_of_complete h (by simp)
      · obtain ⟨s, -, rfl⟩ := Option.map_eq_some_iff.mp h
        exact ⟨rfl, trivial⟩
  | number literal =>
    simp only [Reader.step] at h
    split_ifs at h
    · cases h
      exact ⟨rfl, trivial⟩
    · obtain ⟨mid, hmid, hnext⟩ := Option.bind_eq_some_iff.mp h
      exact (flat_of_complete hmid (by simp)).between hnext
  | word w n =>
    simp only [Reader.step] at h
    split_ifs at h
    · exact flat_of_complete h (by cases w <;> simp [Word.value])
    · cases h
      exact ⟨rfl, trivial⟩
  | done v => exact hr.between h
  | value | firstItem | firstKey | key | colon | after => exact absurd hr.2 id

theorem not_object_of_flat (hr : Flat r) :
    reader.runFrom r text ≠ some ⟨.done (.object members), []⟩ := by
  intro h
  have hflat := Machine.runFrom_invariant (M := reader) (P := Flat)
    (fun c r r' hr h => Flat.step hr h) text r _ hr h
  exact hflat.2 members rfl

theorem eq_nil_of_run_done {v : JsonTree} {stack : List Frame}
    (hblank : ∀ c ∈ text, isBlank c = false) (h : reader.runFrom ⟨.done v, stack⟩ text = some r) :
    text = [] := by
  apply List.eq_nil_iff_forall_not_mem.mpr
  intro c hc
  have hall := List.all_eq_true.mp (eq_of_run_done h).1 c hc
  rw [hblank c hc] at hall
  cases hall

/-- An object without blanks ends with its brace. -/
theorem Inner.getLast?_of_run (hr : Inner false r) (hblank : ∀ c ∈ text, isBlank c = false)
    (h : reader.runFrom r text = some ⟨.done (.object members), []⟩) :
    text.getLast? = some 125 := by
  induction text generalizing r with
  | nil =>
    cases h
    exact absurd rfl (hr.not_done _)
  | cons c rest ih =>
    obtain ⟨mid, hmid, hrest⟩ := Option.bind_eq_some_iff.mp h
    have hblank' : ∀ c ∈ rest, isBlank c = false := fun x hx => hblank x (List.mem_cons_of_mem c hx)
    obtain hinner | ⟨rfl, x, rfl⟩ := hr.step hmid
    · rw [List.getLast?_cons, ih hinner hblank' hrest]
      rfl
    · rw [eq_nil_of_run_done hblank' hrest]
      rfl

theorem eq_brace_of_run (hblank : isBlank c = false)
    (h : reader.run (c :: text) = some ⟨.done (.object members), []⟩) : c = 123 := by
  obtain ⟨mid, hmid, hrest⟩ := Option.bind_eq_some_iff.mp h
  have hbegin : beginValue c [] = some mid := by simpa [reader, step, hblank] using hmid
  by_contra hc
  have hother : Inner true mid ∨ Flat mid := by
    unfold beginValue at hbegin
    split_ifs at hbegin <;> cases hbegin
    · exact .inr ⟨rfl, trivial⟩
    · exact .inl ⟨.array [], fun _ => .inr ⟨rfl, rfl⟩, by simp⟩
    all_goals exact .inr ⟨rfl, trivial⟩
  obtain hinner | hflat := hother
  · obtain hopen | ⟨_, _, ⟨⟩⟩ := hinner.run hrest
    exact hopen.not_done _ rfl
  · exact not_object_of_flat hflat hrest

end Reader

theorem braces_of_read (hblank : ∀ c ∈ text, isBlank c = false)
    (h : read text = some (.object members)) :
    text.head? = some 123 ∧ text.getLast? = some 125 := by
  cases text with
  | nil => cases h
  | cons c rest =>
    obtain rfl := eq_brace_of_run (hblank c List.mem_cons_self) (read_eq_object.mp h)
    refine ⟨rfl, ?_⟩
    have hblank' : ∀ c ∈ rest, isBlank c = false := fun x hx => hblank x (List.mem_cons_of_mem _ hx)
    cases rest with
    | nil => cases h
    | cons d rest =>
      have hblank'' : ∀ c ∈ rest, isBlank c = false :=
        fun x hx => hblank' x (List.mem_cons_of_mem _ hx)
      obtain ⟨mid, hmid, hrest⟩ := Option.bind_eq_some_iff.mp (read_brace_eq_object.mp h)
      simp only [reader, step, hblank' d List.mem_cons_self, Bool.false_eq_true, if_false] at hmid
      split_ifs at hmid with hquote hend
      · cases hmid
        have hinner : Inner false ⟨.string true [] .plain, [.object []]⟩ :=
          ⟨.object [], by simp, by simp⟩
        rw [List.getLast?_cons, List.getLast?_cons, hinner.getLast?_of_run hblank'' hrest]
        rfl
      · cases hmid
        rw [hend, eq_nil_of_run_done hblank'' hrest]
        rfl

theorem run_append_cons {a b : List UInt8} {c : UInt8} {r : Reader} :
    reader.run (a ++ c :: b) = some r ↔
      ∃ r₁ r₂, reader.run a = some r₁ ∧ step c r₁ = some r₂ ∧ reader.runFrom r₂ b = some r := by
  rw [Machine.run, Machine.runFrom_append]
  simp only [Option.bind_eq_some_iff, Machine.runFrom]
  constructor
  · rintro ⟨r₁, hr₁, r₂, hr₂, hr⟩
    exact ⟨r₁, r₂, hr₁, hr₂, hr⟩
  · rintro ⟨r₁, r₂, hr₁, hr₂, hr⟩
    exact ⟨r₁, hr₁, r₂, hr₂, hr⟩

theorem inner_key (members : List (List UInt8 × JsonTree)) :
    Inner false ⟨.key, [.object members]⟩ :=
  ⟨.object members, by simp, nofun⟩

theorem runFrom_key (members : List (List UInt8 × JsonTree)) (text : List UInt8) :
    reader.runFrom ⟨.key, [.object members]⟩ text =
      (reader.runFrom ⟨.key, [.object []]⟩ text).bind (plug members []) := by
  have hplug := run_plug_nil members (inner_key []) text
  rwa [show plugStack members [] [.object []] = [.object members] by simp [plugStack]] at hplug

theorem runFrom_key_iff (text : List UInt8) (hx : x ≠ []) :
    reader.runFrom ⟨.key, [.object members]⟩ text = some ⟨.done (.object (members ++ x)), []⟩ ↔
      read (123 :: text) = some (.object x) := by
  rw [read_brace_eq_object, run_firstKey hx, runFrom_key, Option.bind_eq_some_iff]
  constructor
  · rintro ⟨r, hrun, hend⟩
    obtain hinner | ⟨-, -, y, rfl⟩ := (inner_key []).run hrun
    · rw [hinner.plug members []] at hend
      exact absurd (congrArg Reader.mode (Option.some.inj hend)) (hinner.not_done _)
    · have hsame : members ++ y = members ++ x := by
        simpa [plug, complete] using hend
      rw [hrun, List.append_cancel_left hsame]
  · exact fun hrun => ⟨_, hrun, rfl⟩

/-- Where an object is cut at a comma another one may be pasted. -/
theorem read_paste {a b : List UInt8} {j : JsonTree} (h : read (a ++ 44 :: b) = some j)
    (hcut : read (a ++ [125]) = some (.object members)) (hx : x ≠ [])
    (hread : read (123 :: text) = some (.object x)) :
    read (a ++ 44 :: text) = some (.object (members ++ x)) := by
  obtain ⟨r, hrun, -⟩ := Option.bind_eq_some_iff.mp h
  obtain ⟨r₁, r₂, hr₁, hcomma, -⟩ := run_append_cons.mp hrun
  obtain ⟨r₁', r₂', hr₁', hclose, hr₂'⟩ := run_append_cons.mp (read_eq_object.mp hcut)
  cases hr₁.symm.trans hr₁'
  cases hr₂'
  rw [step_comma_of_close hclose hcomma] at hcomma
  exact read_eq_object.mpr
    (run_append_cons.mpr ⟨r₁, _, hr₁, hcomma, (runFrom_key_iff text hx).mpr hread⟩)

/-- Of a text that can be read, a comma can be cut with what follows it, and the object closed
there, so that exactly one member is lost, if and only if what follows the comma is that
member. -/
theorem read_cut_iff {a b key : List UInt8} {j v : JsonTree} (h : read (a ++ 44 :: b) = some j) :
    (∃ members, j = .object (members ++ [(key, v)]) ∧ read (a ++ [125]) = some (.object members)) ↔
      read (123 :: b) = some (.object [(key, v)]) := by
  obtain ⟨r, hrun, hresult⟩ := Option.bind_eq_some_iff.mp h
  obtain ⟨r₁, r₂, hr₁, hcomma, hr⟩ := run_append_cons.mp hrun
  constructor
  · rintro ⟨members, rfl, hcut⟩
    obtain ⟨r₁', r₂', hr₁', hclose, hr₂'⟩ := run_append_cons.mp (read_eq_object.mp hcut)
    cases hr₁.symm.trans hr₁'
    cases hr₂'
    rw [step_comma_of_close hclose hcomma, result_eq_object.mp hresult] at hr
    exact (runFrom_key_iff b (List.cons_ne_nil _ _)).mp hr
  · intro hmember
    have hkey : reader.runFrom ⟨.key, [.object []]⟩ b = some ⟨.done (.object [(key, v)]), []⟩ :=
      (run_firstKey (List.cons_ne_nil _ _)).mp (read_brace_eq_object.mp hmember)
    obtain ⟨isKey, text, stack, rfl, -⟩ | ⟨⟨stack, rfl⟩, -⟩ | ⟨members, rest, rfl, hclose⟩ :=
      step_comma hcomma
    · -- In a string: the two readers are never on the same side of a quote.
      have hopposed : Opposed ⟨.key, [.object []]⟩ ⟨.string isKey (text ++ [44]) .plain, stack⟩ :=
        .inl ⟨rfl, _, _, _, rfl⟩
      obtain ⟨-, _, _, _, rfl⟩ | ⟨⟨_, _, _, hdone⟩, -⟩ := hopposed.run hkey hr
      · cases hresult
      · cases hdone
    · -- In an array there is no colon after a string.
      cases Astray.due.run hkey hr
    · have hplug := run_plug members rest (inner_key []) hkey
      rw [show plugStack members rest [.object []] = .object members :: rest by simp [plugStack],
        hr] at hplug
      have hend : complete (.object (members ++ [(key, v)])) rest = some r := hplug.symm
      obtain rfl : rest = [] := by
        cases rest with
        | nil => rfl
        | cons f rest =>
          cases f <;> cases hend <;> cases hresult
      cases hend
      cases hresult
      refine ⟨members, rfl, read_eq_object.mpr (run_append_cons.mpr ⟨r₁, _, hr₁, hclose, rfl⟩)⟩

end SkaleConsensus.Library.JsonTree
