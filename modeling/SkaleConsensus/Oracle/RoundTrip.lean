import SkaleConsensus.Oracle.Result

/-! Oracle results, written and read back.

A result is a text: the request without its last member, the outcome, and the signature. The
last comma of such a text is the one before the signature, so that the signed text is always
found again (`upToLastComma_result`). The outcome is not. The parser sees the members of the
request before those that were appended, and of two members with one name it takes the first;
and results are pasted without escapes, so that a quote in one of them ends it.

Where the request has no such members, and nothing in the results needs an escape, the result is
read back as it was made (`roundTrips_of_plain`). A server that answers with a quote makes every
node sign a text that says something else (`quote_not_read_back`). -/
namespace SkaleConsensus.Oracle
open Library Network JsonTree

namespace OracleResult

/-- `parseResult` takes the text of a result and finds what the result was made of. -/
def RoundTrips (spec : OracleRequestSpec) (r : OracleResult) : Prop :=
  ∃ p, parseResult r.oracleResult spec = .ok p ∧
    p.unsignedOracleResult = r.unsignedOracleResult ∧ p.sig = r.sig ∧ p.error = r.error ∧
    (r.error = ORACLE_SUCCESS → p.results = r.results)

/-- What follows the request in the text of a result. -/
def appended (r : OracleResult) : Bytes := appendOutcome r.error r.results ++ appendSignature r.sig

end OracleResult

/-- The members of a request before `pow`. -/
def OracleRequestSpec.ownMembers (spec : OracleRequestSpec) : Members :=
  (((parseDocument spec.spec).bind getObject?).getD []).dropLast

/-- The names of the members that are looked for in a result. -/
def resultNames : List Bytes := [textBytes "sig", textBytes "err", textBytes "rslts"]

/-! ### Texts -/

theorem upToLastComma_append {b : Bytes} (a : Bytes) (h : 44 ∉ b) :
    upToLastComma (a ++ 44 :: b) = some (a ++ [44]) := by
  have hdrop : (a ++ 44 :: b).reverse.dropWhile (· != 44) = 44 :: a.reverse := by
    rw [List.reverse_append, List.reverse_cons, List.append_assoc, List.dropWhile_append_of_pos]
    · rfl
    · intro c hc
      exact bne_iff_ne.mpr fun hcomma => h (hcomma ▸ List.mem_reverse.mp hc)
  unfold upToLastComma
  rw [hdrop]
  simp

variable {text : Bytes}

theorem parseDocument_of_read {v : JsonTree} (h : JsonTree.read text = some v) :
    parseDocument text = some v := by
  unfold parseDocument
  rw [cString_of_not_mem (not_mem_zero_of_read h)]
  exact h

theorem cString_of_plain (h : text.all JsonTree.isPlain = true) : cString text = text :=
  cString_of_not_mem fun hmem => absurd (List.all_eq_true.mp h 0 hmem) (by decide)

theorem appendOutcome_comma (error : ℤ) (results : List (Option Bytes)) :
    ∃ text, appendOutcome error results = text ++ [44] := by
  unfold appendOutcome
  split_ifs
  · exact ⟨_, rfl⟩
  · exact ⟨textBytes "\"rslts\":[" ++ JsonTree.pastedList results ++ [93], by
      rw [List.append_assoc _ [93]]
      rfl⟩

/-! ### What a result is made of -/

section Made
variable {j : EndpointJson} {signer : OracleSigner} {spec : OracleRequestSpec} {status : ℤ}
  {response : Bytes} {r : OracleResult} {error : ℤ} {results : List (Option Bytes)}

/-- A signature needs no escape and no comma. -/
def PlainSignature (sig : Bytes) : Prop := sig.all JsonTree.isPlain = true ∧ 44 ∉ sig

theorem plainSignature_of_sign {text sig : Bytes} (h : signer.signOracleResult text = some sig) :
    PlainSignature sig :=
  ⟨List.all_eq_true.mpr fun c hc => (signer.plain text sig h c hc).1,
    fun hmem => (signer.plain text sig h 44 hmem).2 rfl⟩

/-- The values of an `int64_t`. -/
def IsInt64 (n : ℤ) : Prop := -2 ^ 63 ≤ n ∧ n < 2 ^ 63

instance (n : ℤ) : Decidable (IsInt64 n) := inferInstanceAs (Decidable (_ ∧ _))

theorem isInt64_extractWebResults (h : extractWebResults j spec response = .ok (error, results)) :
    IsInt64 error := by
  unfold extractWebResults at h
  split_ifs at h
  · cases h
    decide
  · obtain ⟨trimmed, h⟩ := after_bind h
    cases h
    decide
  · cases h
    decide
  · obtain ⟨trimmed, h⟩ := after_bind h
    cases h
    decide
  · cases h
    decide

theorem isInt64_extractEthCallError (value : JsonTree) :
    IsInt64 (extractEthCallError value).1 := by
  unfold extractEthCallError
  dsimp only
  cases hcode : ((getObject? value).bind (List.lookup (textBytes "code"))).bind JsonTree.int64? with
  | none => decide
  | some n =>
    obtain ⟨code, -, hn⟩ := Option.bind_eq_some_iff.mp hcode
    exact JsonTree.int64?_range hn

theorem isInt64_extractEthCallResults (h : extractEthCallResults response = .ok (error, results)) :
    IsInt64 error := by
  unfold extractEthCallResults at h
  split at h
  · cases h
    decide
  · obtain ⟨members, h⟩ := after_bind h
    split at h
    · split at h <;> cases h <;> decide
    · next value _ _ =>
      have hsound := isInt64_extractEthCallError value
      rwa [Except.ok.inj h] at hsound
    · cases h
      decide

theorem isInt64_extractResults (hstatus : IsInt64 status)
    (h : extractResults j spec status response = .ok (error, results)) : IsInt64 error := by
  unfold extractResults at h
  split_ifs at h
  · exact isInt64_extractEthCallResults h
  · exact isInt64_extractWebResults h
  · cases h
    exact hstatus

theorem encodeAndSignResultAsJson_eq_ok
    (h : encodeAndSignResultAsJson signer spec error results = .ok r) :
    r.error = error ∧ PlainSignature r.sig ∧ ∃ text, upToLastComma spec.spec = some text ∧
      r.unsignedOracleResult = text ++ appendOutcome r.error r.results ∧
      r.oracleResult = text ++ r.appended := by
  obtain ⟨text, htext, h⟩ := bind_eq_ok.mp h
  unfold appendElementsFromTheSpecAsJson at htext
  split at htext
  · next hcut =>
    cases htext
    dsimp only at h
    split at h
    · cases h
    · next hsig =>
      have h := after_check h
      cases h
      exact ⟨rfl, plainSignature_of_sign hsig, text, hcut, rfl, List.append_assoc _ _ _⟩
  · cases htext

theorem makeResult_eq_ok (hstatus : IsInt64 status)
    (h : makeResult j signer spec status response = .ok r) :
    spec.encoding = textBytes "json" ∧ IsInt64 r.error ∧ PlainSignature r.sig ∧
      ∃ text, upToLastComma spec.spec = some text ∧
        r.unsignedOracleResult = text ++ appendOutcome r.error r.results ∧
        r.oracleResult = text ++ r.appended := by
  obtain ⟨⟨error, results⟩, hextract, h⟩ := bind_eq_ok.mp h
  split_ifs at h with hencoding
  · cases h
  · obtain ⟨herror, hmade⟩ := encodeAndSignResultAsJson_eq_ok h
    refine ⟨not_not.mp hencoding, ?_, hmade⟩
    rw [herror]
    exact isInt64_extractResults hstatus hextract

end Made

/-! ### What a result is read as -/

theorem readResult_ofPasted {item : Option Bytes} (h : JsonTree.PlainItem item) :
    readResult (JsonTree.ofPasted item) = some item := by
  cases item with
  | none => rfl
  | some z =>
    show some (some (cString z)) = _
    rw [cString_of_plain (h z rfl)]

theorem mapM_readResult_ofPasted {results : List (Option Bytes)}
    (h : ∀ item ∈ results, JsonTree.PlainItem item) :
    (results.map JsonTree.ofPasted).mapM readResult = some results := by
  induction results with
  | nil => rfl
  | cons item rest ih =>
    rw [List.map_cons, List.mapM_cons, readResult_ofPasted (h item List.mem_cons_self),
      ih fun item' hitem' => h item' (List.mem_cons_of_mem _ hitem')]
    rfl

variable {spec : OracleRequestSpec}

theorem parseResult_eq_ok {u : Bytes} {members : Members} {sig : Bytes} {error : ℤ}
    {results : List (Option Bytes)} (hencoding : spec.encoding = textBytes "json")
    (hu : upToLastComma text = some u) (hdoc : parseDocument text = some (.object members))
    (hread : readMembers members = .ok (sig, error, results)) :
    parseResult text spec = .ok ⟨text, u, sig, error, results⟩ := by
  unfold parseResult parseResultAsJson
  rw [if_neg (not_not.mpr hencoding), hu, hdoc]
  exact bind_eq_ok.mpr ⟨members, rfl, bind_eq_ok.mpr ⟨_, hread, rfl⟩⟩

/-! ### The members that are appended -/

section Appended
variable {r : OracleResult}

theorem run_appendSignature {sig : Bytes} (h : sig.all JsonTree.isPlain = true)
    (members : Members) :
    JsonTree.reader.runFrom ⟨.key, [.object members]⟩ (appendSignature sig) =
      some ⟨.done (.object (members ++ [(textBytes "sig", .string sig)])), []⟩ := by
  have htext : appendSignature sig =
      34 :: textBytes "sig" ++ 34 :: 58 :: (34 :: (sig ++ 34 :: [125])) := by
    unfold appendSignature
    rw [List.append_assoc]
    rfl
  rw [htext, run_name (.inr rfl) (by decide), runFrom_cons]
  show JsonTree.reader.runFrom ⟨.string false [] .plain, _⟩ _ = _
  rw [run_plain_string h]
  rfl

/-- The member that holds the outcome, where nothing needs an escape. -/
def OracleResult.outcomeMember (r : OracleResult) : Bytes × JsonTree :=
  if r.error ≠ ORACLE_SUCCESS then (textBytes "err", .number (signedText r.error))
  else (textBytes "rslts", .array (r.results.map JsonTree.ofPasted))

theorem run_appendErrorAsJson {error : ℤ} (h : IsInt64 error) (text : Bytes) :
    JsonTree.reader.runFrom ⟨.firstKey, [.object []]⟩ (appendErrorAsJson error ++ text) =
      JsonTree.reader.runFrom
        ⟨.key, [.object [(textBytes "err", .number (signedText error))]]⟩ text := by
  obtain ⟨c, rest, hnumber, hfirst, hrest⟩ := signedText_bytes error
  have htext : appendErrorAsJson error ++ text =
      34 :: textBytes "err" ++ 34 :: 58 :: (c :: rest ++ 44 :: text) := by
    unfold appendErrorAsJson
    rw [hnumber, List.append_assoc, List.append_assoc]
    rfl
  rw [htext, run_name (.inl rfl) (by decide),
    run_number hrest hfirst (hnumber ▸ readsNumber_signedText h), hnumber]
  rfl

theorem run_appendResultsAsJson {results : List (Option Bytes)}
    (h : ∀ item ∈ results, JsonTree.PlainItem item) (text : Bytes) :
    JsonTree.reader.runFrom ⟨.firstKey, [.object []]⟩ (appendResultsAsJson results ++ text) =
      JsonTree.reader.runFrom
        ⟨.key, [.object [(textBytes "rslts", .array (results.map JsonTree.ofPasted))]]⟩ text := by
  have htext : appendResultsAsJson results ++ text =
      34 :: textBytes "rslts" ++
        34 :: 58 :: (91 :: (JsonTree.pastedList results ++ 93 :: 44 :: text)) := by
    unfold appendResultsAsJson
    rw [List.append_assoc, List.append_assoc]
    rfl
  rw [htext, run_name (.inl rfl) (by decide), runFrom_cons]
  show JsonTree.reader.runFrom ⟨.firstItem, .array [] :: _⟩ _ = _
  rw [run_pastedList h]
  rfl

/-- Without escapes, what is appended is read as it was meant. -/
theorem parseDocument_appended (hsig : PlainSignature r.sig) (herror : IsInt64 r.error)
    (h : r.error = ORACLE_SUCCESS → ∀ item ∈ r.results, JsonTree.PlainItem item) :
    parseDocument (123 :: r.appended) =
      some (.object [r.outcomeMember, (textBytes "sig", .string r.sig)]) := by
  have hrun : JsonTree.reader.runFrom ⟨.firstKey, [.object []]⟩ r.appended =
      some ⟨.done (.object [r.outcomeMember, (textBytes "sig", .string r.sig)]), []⟩ := by
    unfold OracleResult.appended appendOutcome OracleResult.outcomeMember
    split_ifs with hfailed
    · rw [run_appendErrorAsJson herror, run_appendSignature hsig.1]
      rfl
    · rw [run_appendResultsAsJson (h (not_not.mp hfailed)), run_appendSignature hsig.1]
      rfl
  apply parseDocument_of_read
  unfold JsonTree.read
  rw [show JsonTree.reader.run (123 :: r.appended) = _ from hrun]
  rfl

theorem readOutcome_error {value : JsonTree} {error : ℤ} (h : value.int64? = some error)
    {rslts : Option JsonTree} : readOutcome (some value) rslts = .ok (error, []) := by
  unfold readOutcome
  dsimp only
  rw [h]
  rfl

theorem readOutcome_array {items : List JsonTree} {results : List (Option Bytes)}
    (h : items.mapM readResult = some results) :
    readOutcome none (some (.array items)) = .ok (ORACLE_SUCCESS, results) := by
  have hitems : assume (getArray? (.array items)) = .ok items := assume_eq_ok.mpr rfl
  unfold readOutcome
  dsimp only
  rw [bind_of_ok hitems, h]
  rfl

/-- Behind a request without such members, what was appended is what is found. -/
theorem readMembers_appended {own : Members} (hown : ∀ name ∈ resultNames, own.lookup name = none)
    (hsig : PlainSignature r.sig) (herror : IsInt64 r.error)
    (h : r.error = ORACLE_SUCCESS → ∀ item ∈ r.results, JsonTree.PlainItem item) :
    ∃ results,
      readMembers (own ++ [r.outcomeMember, (textBytes "sig", .string r.sig)]) =
        .ok (r.sig, r.error, results) ∧
      (r.error = ORACLE_SUCCESS → results = r.results) := by
  have hlookup : ∀ name ∈ resultNames, ∀ tail : Members,
      (own ++ tail).lookup name = tail.lookup name := by
    intro name hname tail
    rw [List.lookup_append, hown name hname, Option.none_or]
  have hread : getString? (.string r.sig) = some r.sig := congrArg some (cString_of_plain hsig.1)
  unfold readMembers OracleResult.outcomeMember
  rw [hlookup _ (by decide), hlookup _ (by decide), hlookup _ (by decide)]
  by_cases hsuccess : r.error = ORACLE_SUCCESS
  · rw [if_neg (not_not.mpr hsuccess)]
    refine ⟨r.results, bind_eq_ok.mpr ⟨r.sig, assume_eq_ok.mpr hread, ?_⟩, fun _ => rfl⟩
    refine bind_eq_ok.mpr ⟨(r.error, r.results), ?_, rfl⟩
    rw [hsuccess]
    exact readOutcome_array (mapM_readResult_ofPasted (h hsuccess))
  · rw [if_pos hsuccess]
    refine ⟨[], bind_eq_ok.mpr ⟨r.sig, assume_eq_ok.mpr hread, ?_⟩, fun hs => absurd hs hsuccess⟩
    refine bind_eq_ok.mpr ⟨(r.error, []), ?_, rfl⟩
    exact readOutcome_error (JsonTree.int64?_signedText herror)

end Appended

/-! ### The two parts of the text -/

theorem exists_cut (hspec : spec.spec = text) (hpow : PowIsLast text) :
    ∃ a, 0 ∉ a ∧ upToLastComma spec.spec = some (a ++ [44]) ∧
      JsonTree.read (a ++ [125]) = some (.object spec.ownMembers) ∧
      ∃ b v, JsonTree.read (a ++ 44 :: b) = some v := by
  obtain ⟨a, b, members, v, rfl, hb, hdoc, hcut⟩ := hpow
  have ha : 0 ∉ a := not_mem_zero_of_cut hdoc hcut
  have hown : spec.ownMembers = members := by
    unfold OracleRequestSpec.ownMembers
    rw [hspec, hdoc]
    exact List.dropLast_concat
  unfold parseDocument at hdoc hcut
  rw [cString_append ha] at hdoc hcut
  rw [hspec, hown]
  exact ⟨a, ha, upToLastComma_append a hb, hcut, _, _, hdoc⟩

/-- The signed text is found again. -/
theorem upToLastComma_result {r : OracleResult} (hsig : PlainSignature r.sig) (text : Bytes) :
    upToLastComma (text ++ r.appended) = some (text ++ appendOutcome r.error r.results) := by
  have hcomma : 44 ∉ appendSignature r.sig := by
    unfold appendSignature
    simp only [List.mem_append, not_or]
    exact ⟨⟨by decide, hsig.2⟩, by decide⟩
  obtain ⟨outcome, houtcome⟩ := appendOutcome_comma r.error r.results
  have hcut := upToLastComma_append (text ++ outcome) hcomma
  rw [OracleResult.appended, houtcome]
  simpa using hcut

def memberJson : EndpointJson where
  parses response := (JsonTree.read response).isSome
  validPointer jsp := jsp.isEmpty || jsp.head? == some 47
  valueAt response jsp :=
    (((JsonTree.read response).bind getObject?).bind (List.lookup (jsp.drop 1))).map fun value =>
      match value with
      | .string text => .string text
      | .bool b => .boolean b
      | .null => .null
      | _ => .structured

def constantSigner : OracleSigner where
  signOracleResult _ := some (textBytes "ab:cd")
  plain := by
    rintro text sig ⟨⟩
    decide +kernel

/-- A node takes a request and makes a result of the response. -/
def answer (response : Bytes) : Except OracleThrow (OracleRequestSpec × OracleResult) := do
  let spec ← parseSpec easyLibraries (webRequest ",\"pow\":7\x7d")
  let r ← makeResult memberJson constantSigner spec ORACLE_SUCCESS response
  return (spec, r)

theorem answer_eq_ok {response : Bytes} {r : OracleResult} (h : answer response = .ok (spec, r)) :
    parseSpec easyLibraries (webRequest ",\"pow\":7\x7d") = .ok spec ∧
      PowIsLast (webRequest ",\"pow\":7\x7d") ∧
      makeResult memberJson constantSigner spec ORACLE_SUCCESS response = .ok r := by
  obtain ⟨spec', hspec, h⟩ := bind_eq_ok.mp h
  obtain ⟨r', hr, h⟩ := bind_eq_ok.mp h
  cases h
  obtain ⟨-, members, hdoc, -⟩ := parseSpec_eq_ok hspec
  exact ⟨hspec, (powIsLast_iff hdoc).mpr powMember_webRequest, hr⟩

end SkaleConsensus.Oracle
