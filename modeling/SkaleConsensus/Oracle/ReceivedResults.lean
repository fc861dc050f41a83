import SkaleConsensus.Library.Collect
import SkaleConsensus.Oracle.RoundTrip

/-! Oracle results, collected.

The node that asked an oracle collects what the other nodes answer. It keeps one signature for
each node and counts, for each text, the nodes that signed it; a text with enough of them is
returned with an array of as many signatures, one place for each node.

The two maps are not connected. The signatures that go into the array are those of the first
nodes that answered anything, and nothing says that they belong to the text that was counted:
a node with a low number that answers something else has its signature put under a text it
never signed (`signature_of_another_text`). `integrity_of_undisturbed` says when the array is
right: whoever answered something else first comes after enough nodes that did not. -/
namespace SkaleConsensus.Oracle
open Library Network OrderedMap JsonTree

def ORACLE_RECEIPTS_MAP_SIZE : ℕ := 100000
def ORACLE_TIMEOUT_MS : ℕ := 30000
def ORACLE_REQUEST_AGE_ON_RECEIPT_MS : ℕ := 10000
def ORACLE_REQUEST_FUTURE_JITTER_MS : ℕ := 1000

def ORACLE_UNKNOWN_RECEIPT : ℕ := 1
def ORACLE_TIMEOUT : ℕ := 2
def ORACLE_RESULT_NOT_READY : ℕ := 5
def ORACLE_DUPLICATE_REQUEST : ℕ := 6
def ORACLE_INTERNAL_SERVER_ERROR : ℕ := 9
def ORACLE_INVALID_JSON_REQUEST : ℕ := 10
def ORACLE_TIME_IN_REQUEST_SPEC_TOO_OLD : ℕ := 11
def ORACLE_TIME_IN_REQUEST_SPEC_IN_THE_FUTURE : ℕ := 11
def ORACLE_INVALID_CHAIN_ID : ℕ := 12

/-- `std::string` compares its characters as unsigned numbers. -/
instance instLinearOrderUInt8 : LinearOrder UInt8 where
  le_refl a := UInt8.le_refl a
  le_trans _ _ _ := UInt8.le_trans
  le_antisymm _ _ := UInt8.le_antisymm
  le_total := UInt8.le_total
  lt_iff_le_not_ge _ _ := by simp [UInt8.lt_iff_toNat_lt, UInt8.le_iff_toNat_le]; omega
  toDecidableLE := inferInstance
  toDecidableLT := inferInstance
  toDecidableEq := inferInstance

/-! ### The answers to one request -/

structure OracleReceivedResults where
  requestSpec : OracleRequestSpec
  requiredConfirmations : ℕ
  nodeCount : ℕ
  requestTime : ℕ
  signaturesBySchainIndex : OrderedMap ℕ Bytes
  resultsByCount : OrderedMap Bytes ℕ

namespace OracleReceivedResults

/-- How many nodes have to sign one text. -/
def confirmations (nodeCount : ℕ) : ℕ := (getRequiredSigners nodeCount - 1) / 2 + 1

/-- The constructor. -/
def make (requestSpec : OracleRequestSpec) (nodeCount now : ℕ) : OracleReceivedResults where
  requestSpec := requestSpec
  requiredConfirmations := confirmations nodeCount
  nodeCount := nodeCount
  requestTime := now
  signaturesBySchainIndex := .empty
  resultsByCount := .empty

variable (rs : OracleReceivedResults)

/-- One more node for a text. -/
def count (unsignedResult : Bytes) : OrderedMap Bytes ℕ :=
  match rs.resultsByCount.get? unsignedResult with
  | none => rs.resultsByCount.emplace unsignedResult 1
  | some n => rs.resultsByCount.assign unsignedResult (n + 1)

/-- A second answer of a node is left out. -/
def insertIfDoesntExist (origin : ℕ) (r : OracleResult) :
    Except OracleThrow OracleReceivedResults :=
  if r.sig.isEmpty then throw (.invalidState "!sig.empty()")
  else if rs.signaturesBySchainIndex.contains origin then return rs
  else return {rs with
    signaturesBySchainIndex := rs.signaturesBySchainIndex.emplace origin r.sig
    resultsByCount := rs.count r.unsignedOracleResult}

/-- One turn of the loop over the nodes: the text so far and the signatures in it. -/
def compileStep (done : Bytes × ℕ) (i : ℕ) : Bytes × ℕ :=
  let (completeResult, sigCount) := done
  let separator := if i < rs.nodeCount then textBytes "," else textBytes "]\x7d"
  match rs.signaturesBySchainIndex.get? i with
  | some sig =>
    if sigCount < rs.requiredConfirmations then
      (completeResult ++ textBytes "\"" ++ sig ++ textBytes "\"" ++ separator, sigCount + 1)
    else (completeResult ++ textBytes "null" ++ separator, sigCount)
  | none => (completeResult ++ textBytes "null" ++ separator, sigCount)

def compileCompleteResultJson (unsignedResult : Bytes) : Bytes :=
  ((List.range' 1 rs.nodeCount).foldl rs.compileStep
    (unsignedResult ++ textBytes "\"sigs\":[", 0)).1

/-- The first text, in the order of the map, that enough nodes signed. -/
def confirmed : Option Bytes :=
  (rs.resultsByCount.entries.find? fun item => decide (rs.requiredConfirmations ≤ item.2)).map
    Prod.fst

def tryGettingResult (now : ℕ) : ℕ × Bytes :=
  if rs.requestTime + ORACLE_TIMEOUT_MS < now then (ORACLE_TIMEOUT, [])
  else
    match rs.confirmed with
    | some unsignedResult =>
      if rs.requestSpec.encoding = textBytes "json" then
        (ORACLE_SUCCESS.toNat, rs.compileCompleteResultJson unsignedResult)
      else (ORACLE_INTERNAL_SERVER_ERROR, [])
    | none => (ORACLE_RESULT_NOT_READY, [])

end OracleReceivedResults

/-! ### The client -/

/-- What a node reported: the text it signed and the signature. -/
structure Report where
  receipt : Bytes
  origin : ℕ
  unsignedResult : Bytes
  sig : Bytes
deriving DecidableEq, Repr

/-- A report of node `i` for a receipt. -/
def Report.isFrom (receipt : Bytes) (i : ℕ) (report : Report) : Bool :=
  report.receipt == receipt && report.origin == i

/-- The client, and the reports that were delivered to it since the request was submitted. -/
structure OracleClient where
  receiptsMap : LruCache Bytes OracleReceivedResults ORACLE_RECEIPTS_MAP_SIZE
  reports : List Report

inductive OracleEvent where
  | submit (spec : Bytes) (now : ℕ)
  | response (origin : ℕ) (receipt oracleResult : Bytes) (now : ℕ)
  | check (receipt : Bytes) (now : ℕ)
deriving DecidableEq, Repr

section Client
variable (lib : SpecLibraries) (schainID nodeCount : ℕ)

/-- The spec of a request, or the code of what is wrong with it. Blanks are removed. -/
def readRequest (spec : Bytes) (now : ℕ) : Except ℕ OracleRequestSpec :=
  match parseSpec lib (spec.filter fun c => !Library.isSpace c) with
  | .error (.oracle _ error) => throw error
  | .error (.invalidState _) => throw ORACLE_INVALID_JSON_REQUEST
  | .ok s =>
    if s.chainid ≠ schainID then throw ORACLE_INVALID_CHAIN_ID
    else if (s.requestTime + ORACLE_REQUEST_AGE_ON_RECEIPT_MS) % 2 ^ 64 < now then
      throw ORACLE_TIME_IN_REQUEST_SPEC_TOO_OLD
    else if now + ORACLE_REQUEST_FUTURE_JITTER_MS < s.requestTime then
      throw ORACLE_TIME_IN_REQUEST_SPEC_IN_THE_FUTURE
    else if s.receipt.isEmpty then throw ORACLE_INTERNAL_SERVER_ERROR
    else return s

/-- `submitOracleRequest` and `broadcastRequest`. -/
def OracleClient.submitOracleRequest (spec : Bytes) (now : ℕ) (s : OracleClient) :
    ℕ × OracleClient :=
  match readRequest lib schainID spec now with
  | .error error => (error, s)
  | .ok request =>
    if s.receiptsMap.contains request.receipt then (ORACLE_DUPLICATE_REQUEST, s)
    else
      let results := OracleReceivedResults.make request nodeCount now
      (ORACLE_SUCCESS.toNat, {
        receiptsMap := s.receiptsMap.put request.receipt results
        reports := s.reports.filter (·.receipt != request.receipt)})

/-- `OracleResponseMessage::getOracleResult`, of a message that has not been parsed yet. -/
def getOracleResult (oracleResult : Bytes) (spec : OracleRequestSpec) (now : ℕ) :
    Except OracleThrow OracleResult := do
  let r ← parseResult oracleResult spec
  if spec.chainid ≠ schainID then throw (.invalidState "Invalid schain id in oracle spec")
  if (spec.requestTime + ORACLE_TIMEOUT_MS) % 2 ^ 64 ≤ now then
    throw (.invalidState "Result timeout")
  if now + ORACLE_REQUEST_FUTURE_JITTER_MS ≤ spec.requestTime then
    throw (.invalidState "getTime() < getCurrentTimeMs() + ORACLE_REQUEST_FUTURE_JITTER_MS")
  return r

/-- The answers to a request with one more. The check of the origin asks for one of two bounds,
and one of them always holds. -/
def receiveResponse (origin : ℕ) (oracleResult : Bytes) (now : ℕ) (rs : OracleReceivedResults) :
    Except OracleThrow (OracleResult × OracleReceivedResults) :=
  if 0 < origin ∨ origin ≤ nodeCount then do
    let r ← getOracleResult schainID oracleResult rs.requestSpec now
    let rs' ← rs.insertIfDoesntExist origin r
    return (r, rs')
  else throw (.invalidState "origin > 0 || origin <= getSchain()->getNodeCount()")

/-- `processResponseMessage`; what it throws leaves the answers as they were. -/
def OracleClient.processResponseMessage (origin : ℕ) (receipt oracleResult : Bytes) (now : ℕ)
    (s : OracleClient) : OracleClient :=
  match s.receiptsMap.get? receipt with
  | none => s
  | some rs =>
    match receiveResponse schainID nodeCount origin oracleResult now rs with
    | .error _ => {s with receiptsMap := s.receiptsMap.touch receipt}
    | .ok (r, rs') =>
      { receiptsMap := s.receiptsMap.put receipt rs'
        reports := s.reports ++ [⟨receipt, origin, r.unsignedOracleResult, r.sig⟩] }

def OracleClient.checkOracleResult (receipt : Bytes) (now : ℕ) (s : OracleClient) : ℕ × Bytes :=
  match s.receiptsMap.get? receipt with
  | none => (ORACLE_UNKNOWN_RECEIPT, [])
  | some rs => rs.tryGettingResult now

def OracleEvent.next (s : OracleClient) : OracleEvent → OracleClient
  | .submit spec now => (s.submitOracleRequest lib schainID nodeCount spec now).2
  | .response origin receipt oracleResult now =>
    s.processResponseMessage schainID nodeCount origin receipt oracleResult now
  | .check receipt _ => {s with receiptsMap := s.receiptsMap.touch receipt}

def oracleClient : Machine OracleClient OracleEvent :=
  ⟨⟨.empty, []⟩, fun event s => some (event.next lib schainID nodeCount s)⟩

end Client

/-! ### The array of signatures -/

/-- A text with an array of signatures. -/
def completeText (unsignedResult : Bytes) (entries : List (Option Bytes)) : Bytes :=
  unsignedResult ++ textBytes "\"sigs\":[" ++ pastedList entries ++ textBytes "]\x7d"

/-- What a caller takes a result for: some text, and an array with a place for each node, in
which as many places as were asked for hold a signature with which the node of that place
reported the text. -/
def Integrity (reports : List Report) (receipt : Bytes) (nodeCount requiredConfirmations : ℕ)
    (result : Bytes) : Prop :=
  ∃ unsignedResult entries, result = completeText unsignedResult entries ∧
    entries.length = nodeCount ∧ entries.countP Option.isSome = requiredConfirmations ∧
    (∀ entry ∈ entries, JsonTree.PlainItem entry) ∧
    ∀ i sig, entries[i]? = some (some sig) → ⟨receipt, i + 1, unsignedResult, sig⟩ ∈ reports

namespace OracleReceivedResults
variable (rs : OracleReceivedResults)

/-- The entries for some nodes, after so many signatures. -/
def entriesFrom : ℕ → List ℕ → List (Option Bytes)
  | _, [] => []
  | sigCount, i :: rest =>
    match rs.signaturesBySchainIndex.get? i with
    | some sig =>
      if sigCount < rs.requiredConfirmations then some sig :: entriesFrom (sigCount + 1) rest
      else none :: entriesFrom sigCount rest
    | none => none :: entriesFrom sigCount rest

theorem entriesFrom_cons (sigCount i : ℕ) (rest : List ℕ) :
    ∃ entry sigCount',
      rs.entriesFrom sigCount (i :: rest) = entry :: rs.entriesFrom sigCount' rest ∧
      ∀ text, rs.compileStep (text, sigCount) i =
        (text ++ JsonTree.pasted entry ++
            if i < rs.nodeCount then textBytes "," else textBytes "]\x7d",
          sigCount') := by
  cases hsig : rs.signaturesBySchainIndex.get? i with
  | none =>
    refine ⟨none, sigCount, by simp [entriesFrom, hsig], fun text => ?_⟩
    simp [compileStep, hsig, JsonTree.pasted, textBytes]
  | some sig =>
    by_cases hroom : sigCount < rs.requiredConfirmations
    · refine ⟨some sig, sigCount + 1, by simp [entriesFrom, hsig, hroom], fun text => ?_⟩
      simp [compileStep, hsig, hroom, JsonTree.pasted, textBytes]
    · refine ⟨none, sigCount, by simp [entriesFrom, hsig, hroom], fun text => ?_⟩
      simp [compileStep, hsig, hroom, JsonTree.pasted, textBytes]

/-- The loop writes the entries with commas between them. -/
theorem foldl_compileStep (m : ℕ) {i : ℕ} (hlast : i + m = rs.nodeCount) (text : Bytes)
    (sigCount : ℕ) :
    ((List.range' i (m + 1)).foldl rs.compileStep (text, sigCount)).1 =
      text ++ pastedList (rs.entriesFrom sigCount (List.range' i (m + 1))) ++
        textBytes "]\x7d" := by
  induction m generalizing i text sigCount with
  | zero =>
    obtain ⟨entry, sigCount', hentries, hstep⟩ := rs.entriesFrom_cons sigCount i []
    have hi : ¬ i < rs.nodeCount := by omega
    simp [List.range'_succ, hentries, hstep, hi, entriesFrom, pastedList]
  | succ m ih =>
    obtain ⟨entry, sigCount', hentries, hstep⟩ :=
      rs.entriesFrom_cons sigCount i (List.range' (i + 1) (m + 1))
    obtain ⟨next, sigCount'', hnext, -⟩ :=
      rs.entriesFrom_cons sigCount' (i + 1) (List.range' (i + 1 + 1) m)
    have hi : i < rs.nodeCount := by omega
    rw [List.range'_succ, List.foldl_cons, hstep, ih (by omega), hentries, if_pos hi]
    rw [List.range'_succ, hnext]
    simp [pastedList, textBytes]

theorem compileCompleteResultJson_eq (hpos : 0 < rs.nodeCount) (unsignedResult : Bytes) :
    rs.compileCompleteResultJson unsignedResult =
      completeText unsignedResult (rs.entriesFrom 0 (List.range' 1 rs.nodeCount)) := by
  obtain ⟨m, hm⟩ : ∃ m, rs.nodeCount = m + 1 := ⟨rs.nodeCount - 1, by omega⟩
  have hlast : 1 + m = rs.nodeCount := by omega
  have hfold := rs.foldl_compileStep m hlast (unsignedResult ++ textBytes "\"sigs\":[") 0
  rw [← hm] at hfold
  exact hfold

theorem length_entriesFrom (sigCount : ℕ) (nodes : List ℕ) :
    (rs.entriesFrom sigCount nodes).length = nodes.length := by
  induction nodes generalizing sigCount with
  | nil => rfl
  | cons i rest ih =>
    obtain ⟨entry, sigCount', hentries, -⟩ := rs.entriesFrom_cons sigCount i rest
    simp [hentries, ih]

/-- A node has answered. -/
def answered (i : ℕ) : Bool := rs.signaturesBySchainIndex.contains i

/-- There is a signature for each node that answered, as long as more are asked for. -/
theorem countP_entriesFrom (sigCount : ℕ) (nodes : List ℕ) :
    (rs.entriesFrom sigCount nodes).countP Option.isSome =
      min (rs.requiredConfirmations - sigCount) (nodes.countP rs.answered) := by
  induction nodes generalizing sigCount with
  | nil => simp [entriesFrom]
  | cons i rest ih =>
    cases hsig : rs.signaturesBySchainIndex.get? i with
    | none => simp [entriesFrom, hsig, ih, answered, OrderedMap.contains]
    | some sig =>
      by_cases hroom : sigCount < rs.requiredConfirmations
      · simp [entriesFrom, hsig, hroom, ih, answered, OrderedMap.contains]
        omega
      · simp [entriesFrom, hsig, hroom, ih, answered, OrderedMap.contains]
        omega

/-- An entry is the signature of its node, and not too many nodes before it have answered. -/
theorem of_getElem?_entriesFrom {sigCount p : ℕ} {nodes : List ℕ} {sig : Bytes}
    (h : (rs.entriesFrom sigCount nodes)[p]? = some (some sig)) :
    ∃ i, nodes[p]? = some i ∧ rs.signaturesBySchainIndex.get? i = some sig ∧
      sigCount + (nodes.take p).countP rs.answered < rs.requiredConfirmations := by
  induction nodes generalizing sigCount p with
  | nil => simp [entriesFrom] at h
  | cons i rest ih =>
    cases p with
    | zero =>
      cases hsig : rs.signaturesBySchainIndex.get? i with
      | none => simp [entriesFrom, hsig] at h
      | some sig' =>
        by_cases hroom : sigCount < rs.requiredConfirmations
        · simp only [entriesFrom, hsig, hroom, if_true] at h
          cases h
          exact ⟨i, rfl, hsig, by simpa using hroom⟩
        · simp [entriesFrom, hsig, hroom] at h
    | succ p =>
      cases hsig : rs.signaturesBySchainIndex.get? i with
      | none =>
        simp only [entriesFrom, hsig, List.getElem?_cons_succ] at h
        obtain ⟨j, hj, hstored, hcount⟩ := ih h
        exact ⟨j, hj, hstored, by simpa [answered, OrderedMap.contains, hsig] using hcount⟩
      | some sig' =>
        by_cases hroom : sigCount < rs.requiredConfirmations
        · simp only [entriesFrom, hsig, hroom, if_true, List.getElem?_cons_succ] at h
          obtain ⟨j, hj, hstored, hcount⟩ := ih h
          refine ⟨j, hj, hstored, ?_⟩
          simp [answered, OrderedMap.contains, hsig] at hcount ⊢
          omega
        · simp only [entriesFrom, hsig, hroom, if_false, List.getElem?_cons_succ] at h
          obtain ⟨j, hj, hstored, hcount⟩ := ih h
          omega

end OracleReceivedResults

/-! ### What the maps hold -/

/-- Each signature was reported by the first answer of its node, and no text is counted more often
than there are signatures. -/
structure Collected (reports : List Report) (nodeCount : ℕ) (receipt : Bytes)
    (rs : OracleReceivedResults) : Prop where
  nodes : rs.nodeCount = nodeCount
  required : rs.requiredConfirmations = OracleReceivedResults.confirmations nodeCount
  reported : ∀ e ∈ rs.signaturesBySchainIndex.entries, ∃ unsignedResult,
    reports.find? (Report.isFrom receipt e.1) = some ⟨receipt, e.1, unsignedResult, e.2⟩
  known : ∀ i, (reports.find? (Report.isFrom receipt i)).isSome = true →
    rs.signaturesBySchainIndex.contains i = true
  counted : ∀ item ∈ rs.resultsByCount.entries, item.2 ≤ rs.signaturesBySchainIndex.size

namespace Collected
variable {reports : List Report} {nodeCount : ℕ} {receipt : Bytes} {rs rs' : OracleReceivedResults}

/-- A request that was just submitted has no reports. -/
theorem make (spec : OracleRequestSpec) (now : ℕ) :
    Collected (reports.filter (·.receipt != receipt)) nodeCount receipt
      (.make spec nodeCount now) := by
  refine ⟨rfl, rfl, nofun, fun i hi => ?_, nofun⟩
  obtain ⟨report, hreport⟩ := Option.isSome_iff_exists.mp hi
  have hother := (List.mem_filter.mp (List.mem_of_find?_eq_some hreport)).2
  have hfrom := List.find?_some hreport
  simp_all [Report.isFrom]

/-- Reports for other receipts make no difference. -/
theorem congr {reports' : List Report} (h : Collected reports nodeCount receipt rs)
    (hsame : ∀ i, reports'.find? (Report.isFrom receipt i) =
      reports.find? (Report.isFrom receipt i)) :
    Collected reports' nodeCount receipt rs :=
  ⟨h.nodes, h.required, fun e he => hsame e.1 ▸ h.reported e he, fun i => hsame i ▸ h.known i,
    h.counted⟩

theorem count_le (h : Collected reports nodeCount receipt rs) (unsignedResult : Bytes) :
    ∀ item ∈ (rs.count unsignedResult).entries, item.2 ≤ rs.signaturesBySchainIndex.size + 1 := by
  intro item hitem
  have hold : item ∈ rs.resultsByCount.entries → item.2 ≤ rs.signaturesBySchainIndex.size + 1 :=
    fun hmem => Nat.le_succ_of_le (h.counted item hmem)
  unfold OracleReceivedResults.count at hitem
  split at hitem
  · rcases mem_emplace hitem with rfl | hmem
    · exact Nat.succ_le_succ (Nat.zero_le _)
    · exact hold hmem
  · next n hcount =>
    rcases mem_assign hitem with rfl | hmem
    · exact Nat.succ_le_succ (h.counted _ (OrderedMap.get?_eq_some.mp hcount))
    · exact hold hmem

theorem insertIfDoesntExist {origin : ℕ} {r : OracleResult}
    (h : Collected reports nodeCount receipt rs)
    (hinsert : rs.insertIfDoesntExist origin r = .ok rs') :
    Collected (reports ++ [⟨receipt, origin, r.unsignedOracleResult, r.sig⟩]) nodeCount receipt
      rs' := by
  let report : Report := ⟨receipt, origin, r.unsignedOracleResult, r.sig⟩
  unfold OracleReceivedResults.insertIfDoesntExist at hinsert
  have hstays : ∀ e ∈ rs.signaturesBySchainIndex.entries, ∃ unsignedResult,
      (reports ++ [report]).find? (Report.isFrom receipt e.1) =
        some ⟨receipt, e.1, unsignedResult, e.2⟩ := by
    intro e he
    obtain ⟨unsignedResult, hfirst⟩ := h.reported e he
    exact ⟨unsignedResult, by rw [List.find?_append, hfirst, Option.some_or]⟩
  have hfrom : ∀ i, ((reports ++ [report]).find? (Report.isFrom receipt i)).isSome = true →
      rs.signaturesBySchainIndex.contains i = true ∨ i = origin := by
    intro i hi
    rw [List.find?_append, Option.isSome_or, Bool.or_eq_true] at hi
    refine hi.imp (h.known i) fun hnew => ?_
    simp [Report.isFrom, report] at hnew
    exact hnew.symm
  split_ifs at hinsert with hsig hknown
  · cases hinsert
    refine ⟨h.nodes, h.required, hstays, fun i hi => ?_, h.counted⟩
    exact (hfrom i hi).elim id fun heq => heq ▸ hknown
  · cases hinsert
    refine ⟨h.nodes, h.required, fun e he => ?_, fun i hi => ?_, ?_⟩
    · rcases mem_emplace he with rfl | he
      · have hnone : reports.find? (Report.isFrom receipt origin) = none :=
          Option.not_isSome_iff_eq_none.mp fun hsome => hknown (h.known origin hsome)
        refine ⟨r.unsignedOracleResult, ?_⟩
        rw [List.find?_append, hnone, Option.none_or]
        simp [Report.isFrom]
      · exact hstays e he
    · rw [contains_iff, keys_emplace, Finset.mem_insert]
      exact (hfrom i hi).symm.imp_right OrderedMap.contains_iff.mp
    · have hsize := size_emplace_of_not_contains (eq_false_of_ne_true hknown) r.sig
      intro item hitem
      exact (h.count_le r.unsignedOracleResult item hitem).trans hsize.ge

end Collected

section Runs
variable {lib : SpecLibraries} {schainID nodeCount : ℕ} {s s' : OracleClient}

theorem receiveResponse_eq_ok {origin now : ℕ} {oracleResult : Bytes} {r : OracleResult}
    {rs rs' : OracleReceivedResults}
    (h : receiveResponse schainID nodeCount origin oracleResult now rs = .ok (r, rs')) :
    rs.insertIfDoesntExist origin r = .ok rs' := by
  unfold receiveResponse at h
  split_ifs at h
  obtain ⟨r', -, h⟩ := bind_eq_ok.mp h
  obtain ⟨rs'', hinsert, h⟩ := bind_eq_ok.mp h
  cases h
  exact hinsert

def AllCollected (nodeCount : ℕ) (s : OracleClient) : Prop :=
  ∀ receipt rs, s.receiptsMap.get? receipt = some rs → Collected s.reports nodeCount receipt rs

theorem AllCollected.next (h : AllCollected nodeCount s) (event : OracleEvent) :
    AllCollected nodeCount (event.next lib schainID nodeCount s) := by
  intro receipt rs hget
  cases event with
  | submit spec now =>
    simp only [OracleEvent.next, OracleClient.submitOracleRequest] at hget ⊢
    cases hrequest : readRequest lib schainID spec now with
    | error e =>
      simp only [hrequest] at hget ⊢
      exact h receipt rs hget
    | ok request =>
      simp only [hrequest] at hget ⊢
      by_cases hknown : s.receiptsMap.contains request.receipt = true
      · simp only [hknown, if_true] at hget ⊢
        exact h receipt rs hget
      · simp only [hknown, Bool.false_eq_true, if_false] at hget ⊢
        rcases LruCache.of_get?_put hget with ⟨rfl, rfl⟩ | ⟨hne, hget⟩
        · exact .make ..
        · refine (h receipt rs hget).congr fun i => ?_
          rw [List.find?_filter]
          congr
          funext report
          by_cases hreceipt : report.receipt = receipt
          · simp [Report.isFrom, hreceipt, hne, Bool.beq_eq_decide_eq]
          · simp [Report.isFrom, hreceipt]
  | response origin receipt' oracleResult now =>
    simp only [OracleEvent.next, OracleClient.processResponseMessage] at hget ⊢
    cases hfound : s.receiptsMap.get? receipt' with
    | none =>
      simp only [hfound] at hget ⊢
      exact h receipt rs hget
    | some found =>
      cases hreceive : receiveResponse schainID nodeCount origin oracleResult now found with
      | error e =>
        simp only [hfound, hreceive, LruCache.get?_touch] at hget ⊢
        exact h receipt rs hget
      | ok received =>
        obtain ⟨r, found'⟩ := received
        simp only [hfound, hreceive] at hget ⊢
        rcases LruCache.of_get?_put hget with ⟨rfl, rfl⟩ | ⟨hne, hget⟩
        · exact (h receipt found hfound).insertIfDoesntExist (receiveResponse_eq_ok hreceive)
        · refine (h receipt rs hget).congr fun i => ?_
          rw [List.find?_append]
          simp [Report.isFrom, hne.symm]
  | check receipt' now =>
    simp only [OracleEvent.next, LruCache.get?_touch] at hget ⊢
    exact h receipt rs hget

theorem allCollected_of_run {events : List OracleEvent}
    (h : (oracleClient lib schainID nodeCount).run events = some s) : AllCollected nodeCount s := by
  apply Machine.Reachable.invariant (P := AllCollected nodeCount) _ _ ⟨events, h⟩
  · intro receipt rs hget
    cases hget
  · intro event t t' ht hstep
    cases hstep
    exact ht.next event

end Runs

/-! ### Results that are what they are taken for -/

/-- The first answer of a node since the request was submitted has this text. -/
def Agrees (reports : List Report) (receipt unsignedResult : Bytes) (i : ℕ) : Prop :=
  ∀ report ∈ reports.find? (Report.isFrom receipt i), report.unsignedResult = unsignedResult

instance (reports : List Report) (receipt unsignedResult : Bytes) (i : ℕ) :
    Decidable (Agrees reports receipt unsignedResult i) :=
  inferInstanceAs (Decidable (∀ report ∈ _, _))

/-- The nodes that answered, in order. -/
def OracleReceivedResults.signers (rs : OracleReceivedResults) : List ℕ :=
  rs.signaturesBySchainIndex.entries.map Prod.fst

/-- Where enough nodes signed a text: every node that answered is one of the chain, its
signature needs no escape, and if it first reported another text, enough nodes with lower numbers
answered that did not. -/
def Undisturbed (s : OracleClient) (receipt : Bytes) : Prop :=
  ∀ rs ∈ s.receiptsMap.get? receipt, ∀ unsignedResult ∈ rs.confirmed,
    ∀ e ∈ rs.signaturesBySchainIndex.entries,
      (1 ≤ e.1 ∧ e.1 ≤ rs.nodeCount) ∧ e.2.all JsonTree.isPlain = true ∧
      (Agrees s.reports receipt unsignedResult e.1 ∨
        rs.requiredConfirmations ≤ rs.signers.countP
          fun i => decide (i < e.1 ∧ Agrees s.reports receipt unsignedResult i))

instance (s : OracleClient) (receipt : Bytes) : Decidable (Undisturbed s receipt) :=
  inferInstanceAs (Decidable (∀ rs ∈ _, ∀ unsignedResult ∈ _, ∀ e ∈ _, _))

section Integrity
variable {s : OracleClient} {receipt unsignedResult : Bytes} {rs : OracleReceivedResults}

theorem answered_iff {i : ℕ} : rs.answered i = true ↔ i ∈ rs.signers := by
  simp [OracleReceivedResults.answered, OracleReceivedResults.signers, contains_iff,
    OrderedMap.keys]

/-- Enough nodes of the chain have answered. -/
theorem confirmations_le {nodeCount : ℕ} (hcollected : Collected s.reports nodeCount receipt rs)
    (hchain : ∀ i ∈ rs.signers, 1 ≤ i ∧ i ≤ rs.nodeCount)
    (hconfirmed : rs.confirmed = some unsignedResult) :
    rs.requiredConfirmations ≤ (List.range' 1 rs.nodeCount).countP rs.answered := by
  obtain ⟨item, hitem, -⟩ := Option.map_eq_some_iff.mp hconfirmed
  have henough : rs.requiredConfirmations ≤ item.2 := by simpa using List.find?_some hitem
  have hsize :
      rs.signers.countP (fun _ => true) ≤ (List.range' 1 rs.nodeCount).countP rs.answered := by
    apply countP_le_countP rs.signaturesBySchainIndex.nodup_keys
    intro i hi _
    have hbounds := hchain i hi
    exact ⟨List.mem_range'_1.mpr (by omega), answered_iff.mpr hi⟩
  calc rs.requiredConfirmations
      ≤ item.2 := henough
    _ ≤ rs.signaturesBySchainIndex.size := hcollected.counted item (List.mem_of_find?_eq_some hitem)
    _ = rs.signers.countP (fun _ => true) := by
      simp [OracleReceivedResults.signers, OrderedMap.size]
    _ ≤ _ := hsize

/-- A node whose signature goes into the array did not first report another text. -/
theorem agrees_of_entry {e : ℕ × Bytes}
    (hentry : (List.range' 1 (e.1 - 1)).countP rs.answered < rs.requiredConfirmations)
    (hchain : ∀ i ∈ rs.signers, 1 ≤ i ∧ i ≤ rs.nodeCount)
    (h : Agrees s.reports receipt unsignedResult e.1 ∨
      rs.requiredConfirmations ≤ rs.signers.countP
        fun i => decide (i < e.1 ∧ Agrees s.reports receipt unsignedResult i)) :
    Agrees s.reports receipt unsignedResult e.1 := by
  refine h.resolve_right fun hbelow => ?_
  have hcount :
      (rs.signers.countP fun i => decide (i < e.1 ∧ Agrees s.reports receipt unsignedResult i)) ≤
      (List.range' 1 (e.1 - 1)).countP rs.answered := by
    apply countP_le_countP rs.signaturesBySchainIndex.nodup_keys
    intro i hi hlower
    have hbounds := hchain i hi
    have hlt := (of_decide_eq_true hlower).1
    exact ⟨List.mem_range'_1.mpr (by omega), answered_iff.mpr hi⟩
  omega

theorem tryGettingResult_eq_success {now : ℕ} {result : Bytes}
    (h : rs.tryGettingResult now = (ORACLE_SUCCESS.toNat, result)) :
    ∃ unsignedResult, rs.confirmed = some unsignedResult ∧
      result = rs.compileCompleteResultJson unsignedResult := by
  cases hconfirmed : rs.confirmed with
  | none =>
    simp only [OracleReceivedResults.tryGettingResult, hconfirmed] at h
    split_ifs at h <;> cases h
  | some unsignedResult =>
    simp only [OracleReceivedResults.tryGettingResult, hconfirmed] at h
    split_ifs at h
    · cases h
    · cases h
      exact ⟨unsignedResult, rfl, rfl⟩
    · cases h

/-- The entry of a place is the signature of its node. -/
theorem of_getElem?_entries {p : ℕ} {sig : Bytes}
    (h : (rs.entriesFrom 0 (List.range' 1 rs.nodeCount))[p]? = some (some sig)) :
    (p + 1, sig) ∈ rs.signaturesBySchainIndex.entries ∧
      (List.range' 1 p).countP rs.answered < rs.requiredConfirmations := by
  obtain ⟨i, hi, hstored, hcount⟩ := rs.of_getElem?_entriesFrom h
  obtain ⟨hp, hi⟩ := List.getElem?_eq_some_iff.mp hi
  simp only [List.length_range', List.getElem_range'] at hp hi
  obtain rfl : i = p + 1 := by omega
  have htake : (List.range' 1 rs.nodeCount).take p = List.range' 1 p := by
    rw [← Nat.add_sub_cancel' hp.le, ← List.range'_append_1]
    exact List.take_left' List.length_range'
  rw [htake, Nat.zero_add] at hcount
  exact ⟨OrderedMap.get?_eq_some.mp hstored, hcount⟩

end Integrity

/-- In every run, a result that the client returns while the answers are undisturbed is what it
is taken for. -/
theorem integrity_of_undisturbed (lib : SpecLibraries) (schainID nodeCount : ℕ)
    (events : List OracleEvent) (s : OracleClient)
    (hrun : (oracleClient lib schainID nodeCount).run events = some s) (receipt : Bytes) (now : ℕ)
    (result : Bytes) (h : s.checkOracleResult receipt now = (ORACLE_SUCCESS.toNat, result))
    (hundisturbed : Undisturbed s receipt) :
    Integrity s.reports receipt nodeCount (OracleReceivedResults.confirmations nodeCount)
      result := by
  unfold OracleClient.checkOracleResult at h
  cases hget : s.receiptsMap.get? receipt with
  | none =>
    rw [hget] at h
    cases h
  | some rs =>
    have hcollected := allCollected_of_run hrun receipt rs hget
    rw [hget] at h
    obtain ⟨unsignedResult, hconfirmed, rfl⟩ := tryGettingResult_eq_success h
    have hentries := hundisturbed rs hget unsignedResult hconfirmed
    have hchain : ∀ i ∈ rs.signers, 1 ≤ i ∧ i ≤ rs.nodeCount := by
      intro i hi
      obtain ⟨e, he, rfl⟩ := List.mem_map.mp hi
      exact (hentries e he).1
    have hle := confirmations_le hcollected hchain hconfirmed
    have hpos : 0 < rs.nodeCount := by
      have hcount := List.countP_le_length (p := rs.answered) (l := List.range' 1 rs.nodeCount)
      have hrequired : 0 < rs.requiredConfirmations := by
        rw [hcollected.required]
        exact Nat.succ_pos _
      rw [List.length_range'] at hcount
      omega
    rw [← hcollected.required, ← hcollected.nodes]
    refine ⟨unsignedResult, _, rs.compileCompleteResultJson_eq hpos unsignedResult, ?_, ?_, ?_, ?_⟩
    · rw [rs.length_entriesFrom, List.length_range']
    · rw [rs.countP_entriesFrom, Nat.sub_zero]
      exact Nat.min_eq_left hle
    · intro entry hentry sig hsig
      obtain ⟨p, hp⟩ := List.mem_iff_getElem?.mp hentry
      rw [Option.mem_def.mp hsig] at hp
      exact (hentries _ (of_getElem?_entries hp).1).2.1
    · intro p sig hp
      obtain ⟨hstored, hcount⟩ := of_getElem?_entries hp
      have hagrees := agrees_of_entry hcount hchain (hentries _ hstored).2.2
      obtain ⟨other, hreport⟩ := hcollected.reported _ hstored
      obtain rfl : other = unsignedResult := hagrees _ hreport
      exact List.mem_of_find?_eq_some hreport

/-! ### Two collections -/

/-- What a node signs for `webRequest`, and what it answers. -/
def webUnsigned (result : String) : Bytes :=
  webRequest ",\"rslts\":[\"" ++ textBytes result ++ textBytes "\"],"

def webAnswer (result sig : String) : Bytes :=
  webUnsigned result ++ textBytes "\"sig\":\"" ++ textBytes sig ++ textBytes "\"\x7d"

def threeAnswers (first third : String) : List OracleEvent :=
  [.submit (webRequest ",\"pow\":7\x7d") 1,
    .response 1 (textBytes "01") (webAnswer first "a1") 1,
    .response 2 (textBytes "01") (webAnswer "1.5" "a2") 1,
    .response 3 (textBytes "01") (webAnswer third "a3") 1]

/-- Node three answers something else, after two that agree. -/
theorem integrity_threeAnswers :
    ∃ s result, (oracleClient easyLibraries 1 4).run (threeAnswers "1.5" "9.9") = some s ∧
      ¬ Agrees s.reports (textBytes "01") (webUnsigned "1.5") 3 ∧
      s.checkOracleResult (textBytes "01") 1 = (ORACLE_SUCCESS.toNat, result) ∧
      Integrity s.reports (textBytes "01") 4 2 result := by
  obtain ⟨s, hrun, hdisagrees, hcheck, hundisturbed⟩ :
      ∃ s, (oracleClient easyLibraries 1 4).run (threeAnswers "1.5" "9.9") = some s ∧
        ¬ Agrees s.reports (textBytes "01") (webUnsigned "1.5") 3 ∧
        (s.checkOracleResult (textBytes "01") 1).1 = ORACLE_SUCCESS.toNat ∧
        Undisturbed s (textBytes "01") := Machine.exists_run (by decide +kernel)
  refine ⟨s, _, hrun, hdisagrees, Prod.ext hcheck rfl, ?_⟩
  exact integrity_of_undisturbed easyLibraries 1 4 _ s hrun _ 1 _ (Prod.ext hcheck rfl) hundisturbed

/-- Node one answers something else, and its signature stands first under the text that the other
two signed. -/
theorem signature_of_another_text :
    ∃ s result, (oracleClient easyLibraries 1 4).run (threeAnswers "9.9" "1.5") = some s ∧
      s.checkOracleResult (textBytes "01") 1 = (ORACLE_SUCCESS.toNat, result) ∧
      ¬ Integrity s.reports (textBytes "01") 4 2 result := by
  let reported (i : ℕ) (result sig : String) : Report :=
    ⟨textBytes "01", i, webUnsigned result, textBytes sig⟩
  obtain ⟨s, hrun, hcheck, hreports⟩ :
      ∃ s, (oracleClient easyLibraries 1 4).run (threeAnswers "9.9" "1.5") = some s ∧
        s.checkOracleResult (textBytes "01") 1 = (ORACLE_SUCCESS.toNat,
          completeText (webUnsigned "1.5")
            [some (textBytes "a1"), some (textBytes "a2"), none, none]) ∧
        s.reports = [reported 1 "9.9" "a1", reported 2 "1.5" "a2", reported 3 "1.5" "a3"] :=
    Machine.exists_run (by decide +kernel)
  refine ⟨s, _, hrun, hcheck, ?_⟩
  rintro ⟨unsignedResult, entries, htext, hlength, hcount, -, hentries⟩
  rw [hreports] at hentries
  obtain ⟨e₁, e₂, e₃, e₄, rfl⟩ := List.length_eq_four.mp hlength
  have hne : webUnsigned "9.9" ≠ webUnsigned "1.5" := by decide +kernel
  have h₁ := hentries 0
  have h₂ := hentries 1
  have h₃ := hentries 2
  have h₄ := hentries 3
  simp [reported] at h₁ h₂ h₃ h₄
  obtain rfl : e₄ = none := Option.eq_none_iff_forall_ne_some.mpr h₄
  cases e₁ with
  | some sig =>
    -- nobody but node one reported this text
    obtain ⟨rfl, -⟩ := h₁ sig rfl
    obtain rfl : e₂ = none := Option.eq_none_iff_forall_ne_some.mpr fun x hx => hne (h₂ x hx).1
    obtain rfl : e₃ = none := Option.eq_none_iff_forall_ne_some.mpr fun x hx => hne (h₃ x hx).1
    simp at hcount
  | none =>
    -- the two signatures are those of nodes two and three
    obtain ⟨sig₂, rfl⟩ : ∃ sig, e₂ = some sig := by
      cases e₂ <;> cases e₃ <;> simp at hcount ⊢
    obtain ⟨sig₃, rfl⟩ : ∃ sig, e₃ = some sig := by
      cases e₃ <;> simp at hcount ⊢
    obtain ⟨rfl, rfl⟩ := h₂ sig₂ rfl
    obtain ⟨-, rfl⟩ := h₃ sig₃ rfl
    exact absurd htext (by decide +kernel)

end SkaleConsensus.Oracle
