import SkaleConsensus.Library.Json.Paste
import SkaleConsensus.Oracle.RequestSpec

/-! Oracle results.

A node answers a request with a text that is put together by hand: the request up to its last
comma, then the error or the results, then the signature of all of that. The results are
values that a web server chose, and they are pasted between quotes without escapes.
`parseResult` takes such a text apart again: what was signed is what stands before the last
comma, and the rest is read from the JSON members.

The parser of the server's response, the pointers into it and the signature are parameters. -/
namespace SkaleConsensus.Oracle
open Library Network

def MAX_ORACLE_RESULT_LEN : ℕ := 1024 * 3

def ORACLE_SUCCESS : ℤ := 0
def ORACLE_ENDPOINT_JSON_RESPONSE_COULD_NOT_BE_PARSED : ℤ := 8
def ORACLE_RESULT_TOO_LARGE : ℕ := 14
def ORACLE_EMPTY_JSON_RESPONSE : ℤ := 56
def ORACLE_COULD_NOT_PROCESS_JSPS_IN_JSON_RESPONSE : ℤ := 57

/-- What a pointer can point to. -/
inductive WebValue where
  | string (text : Bytes)
  | unsigned (n : ℕ)
  | signed (n : ℤ)
  /-- `to_string` of a double. -/
  | float (text : Bytes)
  | boolean (b : Bool)
  | null
  | structured
deriving DecidableEq, Repr

/-- `nlohmann::json`. -/
structure EndpointJson where
  parses : Bytes → Bool
  /-- The constructor of `json_pointer` does not throw. -/
  validPointer : Bytes → Bool
  /-- `j.at( pointer )` of a response that parses; `none` where it throws. -/
  valueAt : (response jsp : Bytes) → Option WebValue

/-- `CryptoManager::signOracleResult`; `none` where it throws. A signature is made of
hexadecimal digits and colons. -/
structure OracleSigner where
  signOracleResult : Bytes → Option Bytes
  plain : ∀ text sig, signOracleResult text = some sig →
    ∀ c ∈ sig, JsonTree.isPlain c = true ∧ c ≠ 44

structure OracleResult where
  oracleResult : Bytes
  unsignedOracleResult : Bytes
  sig : Bytes
  error : ℤ
  /-- `none` is the null pointer. -/
  results : List (Option Bytes)
deriving DecidableEq, Repr

/-! ### Making a result -/

def WebValue.text : WebValue → Option Bytes
  | .string text => some text
  | .unsigned n => some (decimalText n)
  | .signed n => some (signedText n)
  | .float text => some text
  | .boolean b => some (if b then textBytes "1" else textBytes "0")
  | .null => some []
  | .structured => none

def trimWebResult (trim : ℕ) (res : Option Bytes) : Option Bytes :=
  res.map fun text =>
    if trim = 0 then text else if text.length ≤ trim then [] else text.take (text.length - trim)

def trimWebResults (trims : List ℕ) (results : List (Option Bytes)) :
    Except OracleThrow (List (Option Bytes)) :=
  if results.length = trims.length then return List.zipWith trimWebResult trims results
  else throw (.invalidState "results->size() == oracleRequestSpec->getTrims().size()")

/-- The value under a pointer. A response that does not parse is the null, of which only the
empty pointer finds anything. -/
def EndpointJson.result (j : EndpointJson) (response jsp : Bytes) : Option Bytes :=
  if j.parses response then (j.valueAt response jsp).bind WebValue.text
  else if jsp.isEmpty then WebValue.null.text
  else none

def extractWebResults (j : EndpointJson) (spec : OracleRequestSpec) (response : Bytes) :
    Except OracleThrow (ℤ × List (Option Bytes)) := do
  if response.isEmpty then return (ORACLE_EMPTY_JSON_RESPONSE, [])
  let error := if j.parses response then ORACLE_SUCCESS
    else ORACLE_ENDPOINT_JSON_RESPONSE_COULD_NOT_BE_PARSED
  if spec.jsps.all j.validPointer then
    return (error, ← trimWebResults spec.trims (spec.jsps.map (j.result response)))
  else return (ORACLE_COULD_NOT_PROCESS_JSPS_IN_JSON_RESPONSE, [])

/-- The code of an error object; anything else cannot be parsed. A code that is missing is read
as null. -/
def extractEthCallError (value : JsonTree) : ℤ × List (Option Bytes) :=
  let code := (getObject? value).bind (List.lookup (textBytes "code"))
  ((code.bind JsonTree.int64?).getD ORACLE_ENDPOINT_JSON_RESPONSE_COULD_NOT_BE_PARSED, [])

def extractEthCallResults (response : Bytes) : Except OracleThrow (ℤ × List (Option Bytes)) := do
  match parseDocument response with
  | none => return (ORACLE_ENDPOINT_JSON_RESPONSE_COULD_NOT_BE_PARSED, [])
  | some d =>
    let members ← assume (getObject? d)
    match members.lookup (textBytes "result"), members.lookup (textBytes "error") with
    | some value, _ =>
      match getString? value with
      | some text => return (ORACLE_SUCCESS, [some text])
      | none => return (ORACLE_ENDPOINT_JSON_RESPONSE_COULD_NOT_BE_PARSED, [])
    | none, some value => return extractEthCallError value
    | none, none => return (ORACLE_ENDPOINT_JSON_RESPONSE_COULD_NOT_BE_PARSED, [])

/-- The request without its proof of work, up to and with the last comma. -/
def appendElementsFromTheSpecAsJson (spec : OracleRequestSpec) : Except OracleThrow Bytes :=
  match upToLastComma spec.spec with
  | some text => return text
  | none => throw (.invalidState "Invalid oracle result")

def appendErrorAsJson (error : ℤ) : Bytes := textBytes "\"err\":" ++ signedText error ++ [44]

def appendResultsAsJson (results : List (Option Bytes)) : Bytes :=
  textBytes "\"rslts\":[" ++ JsonTree.pastedList results ++ textBytes "],"

def appendOutcome (error : ℤ) (results : List (Option Bytes)) : Bytes :=
  if error ≠ ORACLE_SUCCESS then appendErrorAsJson error else appendResultsAsJson results

def appendSignature (sig : Bytes) : Bytes := textBytes "\"sig\":\"" ++ sig ++ textBytes "\"\x7d"

def encodeAndSignResultAsJson (signer : OracleSigner) (spec : OracleRequestSpec) (error : ℤ)
    (results : List (Option Bytes)) : Except OracleThrow OracleResult := do
  let unsignedResult := (← appendElementsFromTheSpecAsJson spec) ++ appendOutcome error results
  match signer.signOracleResult unsignedResult with
  | none => throw (.invalidState "signResultAsJson")
  | some sig =>
    let oracleResult := unsignedResult ++ appendSignature sig
    oracleCheck (decide (oracleResult.length ≤ MAX_ORACLE_RESULT_LEN))
      (textBytes "Oracle result too large:" ++ oracleResult) ORACLE_RESULT_TOO_LARGE
    return ⟨oracleResult, unsignedResult, sig, error, results⟩

/-- The error and the results; a request to the endpoint that failed has no results. -/
def extractResults (j : EndpointJson) (spec : OracleRequestSpec) (status : ℤ)
    (serverResponse : Bytes) : Except OracleThrow (ℤ × List (Option Bytes)) :=
  if status = ORACLE_SUCCESS then
    if spec.isEthApi then extractEthCallResults serverResponse
    else extractWebResults j spec serverResponse
  else return (status, [])

/-- The constructor that makes a result of the status of the request to the endpoint and of its
response. -/
def makeResult (j : EndpointJson) (signer : OracleSigner) (spec : OracleRequestSpec) (status : ℤ)
    (serverResponse : Bytes) : Except OracleThrow OracleResult := do
  let (error, results) ← extractResults j spec status serverResponse
  if spec.encoding ≠ textBytes "json" then
    throw (.invalidState "oracleRequestSpec->getEncoding() == \"json\"")
  encodeAndSignResultAsJson signer spec error results

/-! ### Reading a result -/

/-- One item of `rslts`. -/
def readResult : JsonTree → Option (Option Bytes)
  | .string text => some (some (cString text))
  | .null => some none
  | _ => none

/-- The error and the results of the members `err` and `rslts`; with an error the results are
not looked at. -/
def readOutcome (err rslts : Option JsonTree) : Except OracleThrow (ℤ × List (Option Bytes)) :=
  match err, rslts with
  | some value, _ =>
    match value.int64? with
    | some error => return (error, [])
    | none => throw (.invalidState "Error is not int64_t")
  | none, some value => do
    match (← assume (getArray? value)).mapM readResult with
    | some results => return (ORACLE_SUCCESS, results)
    | none => throw (.invalidState "Unknown item in results")
  | none, none => throw (.invalidState "No rslts or err in Oracle result")

/-- The signature, the error and the results of the members. -/
def readMembers (members : Members) : Except OracleThrow (Bytes × ℤ × List (Option Bytes)) := do
  let sig ← assume ((members.lookup (textBytes "sig")).bind getString?)
  let outcome ← readOutcome (members.lookup (textBytes "err")) (members.lookup (textBytes "rslts"))
  return (sig, outcome)

def parseResultAsJson (oracleResult : Bytes) : Except OracleThrow OracleResult := do
  match upToLastComma oracleResult with
  | none => throw (.invalidState "Invalid oracle result")
  | some unsignedResult =>
    match parseDocument oracleResult with
    | none => throw (.invalidState "Unparsable Oracle result")
    | some d =>
      let (sig, error, results) ← readMembers (← assume (getObject? d))
      return ⟨oracleResult, unsignedResult, sig, error, results⟩

def parseResult (oracleResult : Bytes) (spec : OracleRequestSpec) :
    Except OracleThrow OracleResult := do
  if spec.encoding ≠ textBytes "json" then
    throw (.invalidState "_oracleRequestSpec->getEncoding() == \"json\"")
  parseResultAsJson oracleResult

end SkaleConsensus.Oracle
