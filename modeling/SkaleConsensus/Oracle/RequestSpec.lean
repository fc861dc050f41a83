import SkaleConsensus.Library.Json.Cut
import SkaleConsensus.Network.Message

/-! Oracle requests.

A request is a JSON text, and every node later signs a text cut out of it: what stands before
its last comma, which is meant to be everything but the proof of work. The constructor of
`OracleRequestSpec` parses the text and checks its members. Keccak, the URL parser and
`inet_pton` are parameters; the JSON parser is `Library.JsonTree.read`, on the text up to the first
zero.

Three of the documented rules are not checked. The test of the start of the URI compares the
result of a search for a single character, which is never zero; the address that is tested
under the name of `to` is `from`; and nothing asks whether `pow` is the last member
(`three_rules_broken`). `contract_iff_wellWritten` says which accepted texts meet the rules. -/
namespace SkaleConsensus.Oracle
open Library Network

/-! ### Texts -/

/-- `rapidjson::Document::Parse` of a `char*`. -/
def parseDocument (text : Bytes) : Option JsonTree := JsonTree.read (cString text)

/-- `IsString` and `GetString`. -/
def getString? : JsonTree → Option Bytes
  | .string text => some (cString text)
  | _ => none

def getArray? : JsonTree → Option (List JsonTree)
  | .array items => some items
  | _ => none

abbrev Members := List (Bytes × JsonTree)

def getObject? : JsonTree → Option Members
  | .object members => some members
  | _ => none

/-- `substr( 0, find_last_of( "," ) + 1 )`, where there is a comma. -/
def upToLastComma (text : Bytes) : Option Bytes :=
  match text.reverse.dropWhile (· != 44) with
  | [] => none
  | rest => some rest.reverse

/-- `std::string::npos`. -/
def npos : ℕ := 2 ^ 64 - 1

/-- `find` of a character. -/
def findChar (text : Bytes) (c : UInt8) : ℕ := (text.findIdx? (· == c)).getD npos

/-- `std::isxdigit`. -/
def isHexDigit (c : UInt8) : Bool := (JsonTree.hexValue c).isSome

/-! ### Errors -/

def ORACLE_REQUEST_TOO_LARGE : ℕ := 13
def ORACLE_ETH_METHOD_NOT_SUPPORTED : ℕ := 15
def ORACLE_URI_TOO_SHORT : ℕ := 16
def ORACLE_URI_TOO_LONG : ℕ := 17
def ORACLE_UNKNOWN_ENCODING : ℕ := 18
def ORACLE_INVALID_URI_START : ℕ := 19
def ORACLE_INVALID_URI : ℕ := 20
def ORACLE_USERNAME_IN_URI : ℕ := 21
def ORACLE_PASSWORD_IN_URI : ℕ := 22
def ORACLE_IP_ADDRESS_IN_URI : ℕ := 23
def ORACLE_UNPARSABLE_SPEC : ℕ := 24
def ORACLE_NO_CHAIN_ID_IN_SPEC : ℕ := 25
def ORACLE_NON_UINT64_CHAIN_ID_IN_SPEC : ℕ := 26
def ORACLE_NO_URI_IN_SPEC : ℕ := 27
def ORACLE_NON_STRING_URI_IN_SPEC : ℕ := 28
def ORACLE_NO_ENCODING_IN_SPEC : ℕ := 29
def ORACLE_NON_STRING_ENCODING_IN_SPEC : ℕ := 30
def ORACLE_TIME_IN_SPEC_NO_UINT64 : ℕ := 31
def ORACLE_POW_IN_SPEC_NO_UINT64 : ℕ := 32
def ORACLE_POW_DID_NOT_VERIFY : ℕ := 33
def ORACLE_ETH_API_NOT_STRING : ℕ := 34
def ORACLE_ETH_API_NOT_PROVIDED : ℕ := 35
def ORACLE_JSPS_NOT_PROVIDED : ℕ := 36
def ORACLE_JSPS_NOT_ARRAY : ℕ := 37
def ORACLE_JSPS_EMPTY : ℕ := 38
def ORACLE_TOO_MANY_JSPS : ℕ := 39
def ORACLE_JSP_TOO_LONG : ℕ := 40
def ORACLE_JSP_NOT_STRING : ℕ := 41
def ORACLE_TRIMS_ITEM_NOT_STRING : ℕ := 42
def ORACLE_POST_NOT_STRING : ℕ := 44
def ORACLE_POST_STRING_TOO_LARGE : ℕ := 45
def ORACLE_NO_PARAMS_ETH_CALL : ℕ := 46
def ORACLE_PARAMS_ARRAY_INCORRECT_SIZE : ℕ := 47
def ORACLE_PARAMS_ARRAY_FIRST_ELEMENT_NOT_OBJECT : ℕ := 48
def ORACLE_PARAMS_INVALID_FROM_ADDRESS : ℕ := 49
def ORACLE_PARAMS_INVALID_TO_ADDRESS : ℕ := 50
def ORACLE_PARAMS_ARRAY_INCORRECT_COUNT : ℕ := 51
def ORACLE_BLOCK_NUMBER_NOT_STRING : ℕ := 52
def ORACLE_INVALID_BLOCK_NUMBER : ℕ := 53
def ORACLE_MISSING_FIELD : ℕ := 54
def ORACLE_INVALID_FIELD : ℕ := 55
def ORACLE_NO_TIME_IN_SPEC : ℕ := 58
def ORACLE_NO_POW_IN_SPEC : ℕ := 59
def ORACLE_HSPS_TRIMS_SIZE_NOT_EQUAL : ℕ := 60
def ORACLE_PARAMS_NO_ARRAY : ℕ := 61
def ORACLE_PARAMS_GAS_NOT_UINT64 : ℕ := 62

inductive OracleThrow where
  /-- `OracleException`. -/
  | oracle (message : Bytes) (error : ℕ)
  /-- `InvalidStateException`, or an assertion of the JSON library that fails. -/
  | invalidState (message : String)
deriving DecidableEq, Repr

/-- `ORACLE_CHECK_STATE3`. -/
def oracleCheck (check : Bool) (message : Bytes) (error : ℕ) : Except OracleThrow Unit :=
  if check then pure () else throw (.oracle (textBytes "Oracle check failed: " ++ message) error)

theorem oracleCheck_eq_ok {check : Bool} {message : Bytes} {error : ℕ} {u : Unit} :
    oracleCheck check message error = .ok u ↔ check = true := by
  cases check
  · exact ⟨nofun, nofun⟩
  · exact ⟨fun _ => rfl, fun _ => rfl⟩

/-- What an assertion of the JSON library asks. -/
def assume {α : Type} (a : Option α) : Except OracleThrow α :=
  match a with
  | some a => pure a
  | none => throw (.invalidState "RAPIDJSON_ASSERT")

theorem assume_eq_ok {α : Type} {o : Option α} {a : α} : assume o = .ok a ↔ o = some a := by
  cases o
  · exact ⟨nofun, nofun⟩
  · exact ⟨fun h => congrArg some (Except.ok.inj h),
      fun h => congrArg Except.ok (Option.some.inj h)⟩

def requireMember {α : Type} (asType : JsonTree → Option α) (members : Members) (name : String)
    (missing : Bytes) (missingError : ℕ) (mistyped : Bytes) (mistypedError : ℕ) :
    Except OracleThrow α := do
  oracleCheck (members.lookup (textBytes name)).isSome missing missingError
  let value ← assume (members.lookup (textBytes name))
  oracleCheck (asType value).isSome mistyped mistypedError
  assume (asType value)

/-! ### The request -/

def MAX_ORACLE_SPEC_LEN : ℕ := 1024
def ORACLE_MAX_URI_SIZE : ℕ := 1024
def ORACLE_MAX_POST_SIZE : ℕ := 1024
def ORACLE_MAX_JSPS : ℕ := 32
def ORACLE_MAX_JSP_SIZE : ℕ := 1024

def ORACLE_HTTP_START : Bytes := textBytes "http://"
def ORACLE_HTTPS_START : Bytes := textBytes "https://"
def ORACLE_ETH_URL : Bytes := textBytes "eth://"

/-- What `LUrlParser` finds in a URL. -/
structure ParsedURL where
  userName : Bytes
  password : Bytes
  host : Bytes

structure SpecLibraries where
  keccak256 : Bytes → Hash
  /-- `none` for a URL that is not valid. -/
  parseURL : Bytes → Option ParsedURL
  isIpAddress : Bytes → Bool
  testMode : Bool

structure OracleRequestSpec where
  spec : Bytes
  receipt : Bytes
  chainid : ℕ
  uri : Bytes
  encoding : Bytes
  requestTime : ℕ
  pow : ℕ
  ethApi : Bytes
  jsps : List Bytes
  trims : List ℕ
  post : Bytes
  fromAddress : Bytes
  toAddress : Bytes
  data : Bytes
  gas : Bytes
  blockId : Bytes
deriving DecidableEq, Repr

def OracleRequestSpec.isEthApi (s : OracleRequestSpec) : Bool := !s.ethApi.isEmpty

section Parse
variable (lib : SpecLibraries)

def hashForOracle (text : Bytes) : Bytes := toHex (lib.keccak256 text)

/-- `~u256( 0 ) / binaryHash > u256( 10000 )`; a division by zero throws. -/
def verifyPow (spec : Bytes) : Except OracleThrow Bool :=
  let binaryHash := fromLeBytes (lib.keccak256 spec).reverse
  if binaryHash = 0 then throw (.invalidState "verifyPow")
  else return decide (10000 < (2 ^ 256 - 1) / binaryHash)

/-- `_uri.find( ORACLE_HTTP_START ) == 0 ||
_uri.find( ORACLE_HTTPS_START == 0 || _uri == ORACLE_ETH_URL )`. The argument of the second
search is a Boolean, which is taken for a character, and its result is taken for a Boolean. -/
def uriStartAccepted (uri : Bytes) : Bool :=
  ORACLE_HTTP_START.isPrefixOf uri || findChar uri (if uri = ORACLE_ETH_URL then 1 else 0) != 0

def checkURI (uri : Bytes) : Except OracleThrow Unit := do
  oracleCheck (decide (5 < uri.length)) (textBytes "Uri too short:" ++ uri) ORACLE_URI_TOO_SHORT
  oracleCheck (decide (uri.length ≤ ORACLE_MAX_URI_SIZE)) (textBytes "Uri too long:" ++ uri)
    ORACLE_URI_TOO_LONG
  oracleCheck (uriStartAccepted uri) (textBytes "Invalid URI:" ++ uri) ORACLE_INVALID_URI_START
  if uri ≠ ORACLE_ETH_URL ∧ lib.testMode = false then
    oracleCheck (lib.parseURL uri).isSome (textBytes "URI invalid:" ++ uri) ORACLE_INVALID_URI
    let result ← assume (lib.parseURL uri)
    oracleCheck result.userName.isEmpty (textBytes "Non empty username") ORACLE_USERNAME_IN_URI
    oracleCheck result.password.isEmpty (textBytes "Non empty password") ORACLE_PASSWORD_IN_URI
    oracleCheck (!lib.isIpAddress result.host)
      (textBytes "IP addresses not allowed in Oracle uris" ++ uri) ORACLE_IP_ADDRESS_IN_URI

/-- One item of `jsps`. -/
def readJsp (spec : Bytes) (item : JsonTree) : Except OracleThrow Bytes := do
  oracleCheck (getString? item).isSome (textBytes "Jsps array item is not string:" ++ spec)
    ORACLE_JSP_NOT_STRING
  let jsp ← assume (getString? item)
  oracleCheck (decide (jsp.length ≤ ORACLE_MAX_JSP_SIZE)) (textBytes "JSP too long:" ++ spec)
    ORACLE_JSP_TOO_LONG
  return jsp

/-- One item of `trims`. -/
def readTrim (spec : Bytes) (item : JsonTree) : Except OracleThrow ℕ := do
  oracleCheck item.uint64?.isSome (textBytes "Trims array item is not uint64:" ++ spec)
    ORACLE_TRIMS_ITEM_NOT_STRING
  assume item.uint64?

def readTrims (members : Members) (spec : Bytes) (jsps : List Bytes) :
    Except OracleThrow (List ℕ) :=
  match members.lookup (textBytes "trims") with
  | none => return List.replicate jsps.length 0
  | some value => do
    let trims ← (← assume (getArray? value)).mapM (readTrim spec)
    oracleCheck (jsps.length == trims.length)
      (textBytes "hsps array size not equal tp trims array size:" ++ spec)
      ORACLE_HSPS_TRIMS_SIZE_NOT_EQUAL
    return trims

def readPost (members : Members) (spec : Bytes) : Except OracleThrow Bytes :=
  match members.lookup (textBytes "post") with
  | none => return []
  | some value => do
    oracleCheck (getString? value).isSome (textBytes "Post in Oracle spec is not a string:" ++ spec)
      ORACLE_POST_NOT_STRING
    let post ← assume (getString? value)
    oracleCheck (decide (post.length ≤ ORACLE_MAX_POST_SIZE))
      (textBytes "Post string is larger than max allowed:" ++ spec) ORACLE_POST_STRING_TOO_LARGE
    return post

def parseWebRequestSpec (members : Members) (spec : Bytes) (s : OracleRequestSpec) :
    Except OracleThrow OracleRequestSpec := do
  let array ← requireMember getArray? members "jsps"
    (textBytes "No json pointer in Oracle spec:" ++ spec) ORACLE_JSPS_NOT_PROVIDED
    (textBytes "Jsps in Oracle spec is not array:" ++ spec) ORACLE_JSPS_NOT_ARRAY
  oracleCheck (!array.isEmpty) (textBytes "Jsps array is empty.:" ++ spec) ORACLE_JSPS_EMPTY
  oracleCheck (decide (array.length ≤ ORACLE_MAX_JSPS))
    (textBytes "Too many elements in JSP array:" ++ spec) ORACLE_TOO_MANY_JSPS
  let jsps ← array.mapM (readJsp spec)
  let trims ← readTrims members spec jsps
  let post ← readPost members spec
  return {s with jsps := jsps, trims := trims, post := post}

def isHexEncodedUInt64 (s : Bytes) : Bool :=
  if s.length < 3 ∨ 18 < s.length then false
  else if s.take 2 ≠ textBytes "0x" then false
  else (s.drop 2).all isHexDigit

def isValidEthHexAddressString (address : Bytes) : Bool :=
  if address.length ≠ 42 ∨ address.take 2 ≠ textBytes "0x" then false
  else (address.drop 2).all isHexDigit

def checkAndGetParamsField (fields : Members) (fieldName : String) (spec : Bytes) :
    Except OracleThrow Bytes :=
  requireMember getString? fields fieldName
    (textBytes ("The first element in params array must include " ++ fieldName ++ " field ") ++
      spec)
    ORACLE_MISSING_FIELD (textBytes (fieldName ++ " field must be string ") ++ spec)
    ORACLE_INVALID_FIELD

/-- The two elements of `params`. -/
def readParams (members : Members) (spec : Bytes) : Except OracleThrow (JsonTree × JsonTree) := do
  let params ← requireMember getArray? members "params"
    (textBytes "eth_call request shall include params element, which could be an empty array" ++
      spec)
    ORACLE_NO_PARAMS_ETH_CALL (textBytes "eth_call request params element is not array" ++ spec)
    ORACLE_PARAMS_NO_ARRAY
  match params with
  | [call, block] => return (call, block)
  | _ => throw (.oracle (textBytes "Oracle check failed: Params array size must be 2 " ++ spec)
      ORACLE_PARAMS_ARRAY_INCORRECT_SIZE)

/-- The first element of `params`: under the name of `to` it is `from` that is tested. -/
def readCall (call : JsonTree) (spec : Bytes) :
    Except OracleThrow (Bytes × Bytes × Bytes × Bytes) := do
  oracleCheck (getObject? call).isSome
    (textBytes "The first element in params array must be object " ++ spec)
    ORACLE_PARAMS_ARRAY_FIRST_ELEMENT_NOT_OBJECT
  let fields ← assume (getObject? call)
  let fromAddress ← checkAndGetParamsField fields "from" spec
  oracleCheck (isValidEthHexAddressString fromAddress)
    (textBytes "From in params array is not a valid Eth address string " ++ spec)
    ORACLE_PARAMS_INVALID_FROM_ADDRESS
  let toAddress ← checkAndGetParamsField fields "to" spec
  oracleCheck (isValidEthHexAddressString fromAddress)
    (textBytes "To in params array is not a valid Eth address string " ++ spec)
    ORACLE_PARAMS_INVALID_TO_ADDRESS
  let data ← checkAndGetParamsField fields "data" spec
  let gas ← checkAndGetParamsField fields "gas" spec
  oracleCheck (isHexEncodedUInt64 gas)
    (textBytes "Gas in params array is not a valid hex encoded uint64_t string " ++ spec)
    ORACLE_PARAMS_GAS_NOT_UINT64
  oracleCheck (fields.length == 4)
    (textBytes "The first element in params array must be four elements: from, to, data and gas")
    ORACLE_PARAMS_ARRAY_INCORRECT_COUNT
  return (fromAddress, toAddress, data, gas)

def parseEthApiRequestSpec (members : Members) (spec : Bytes) (s : OracleRequestSpec) :
    Except OracleThrow OracleRequestSpec := do
  let (call, block) ← readParams members spec
  let (fromAddress, toAddress, data, gas) ← readCall call spec
  oracleCheck (getString? block).isSome
    (textBytes "The second element in params array must be a string block number" ++ spec)
    ORACLE_BLOCK_NUMBER_NOT_STRING
  let blockId ← assume (getString? block)
  oracleCheck (blockId == textBytes "latest" || isHexEncodedUInt64 blockId)
    (textBytes "The second element in params array must be a hex string block number or latest" ++
      spec) ORACLE_INVALID_BLOCK_NUMBER
  return {s with
    fromAddress := fromAddress, toAddress := toAddress, data := data, gas := gas,
    blockId := blockId}

/-- The elements required for all calls. -/
def parseCommon (members : Members) (spec : Bytes) : Except OracleThrow OracleRequestSpec := do
  let chainid ← requireMember JsonTree.uint64? members "cid"
    (textBytes "No chainid in Oracle spec:" ++ spec) ORACLE_NO_CHAIN_ID_IN_SPEC
    (textBytes "ChainId in Oracle spec is not uint64_t" ++ spec) ORACLE_NON_UINT64_CHAIN_ID_IN_SPEC
  let uri ← requireMember getString? members "uri"
    (textBytes "No URI in Oracle spec:" ++ spec) ORACLE_NO_URI_IN_SPEC
    (textBytes "Uri in Oracle spec is not string:" ++ spec) ORACLE_NON_STRING_URI_IN_SPEC
  checkURI lib uri
  let encoding ← requireMember getString? members "encoding"
    (textBytes "No encoding in Oracle spec:" ++ spec) ORACLE_NO_ENCODING_IN_SPEC
    (textBytes "Encoding in Oracle spec is not string:" ++ spec) ORACLE_NON_STRING_ENCODING_IN_SPEC
  oracleCheck (encoding == textBytes "json") (textBytes "Unknown encoding " ++ encoding)
    ORACLE_UNKNOWN_ENCODING
  let requestTime ← requireMember JsonTree.uint64? members "time"
    (textBytes "No time pointer in Oracle spec:" ++ spec) ORACLE_NO_TIME_IN_SPEC
    (textBytes "time in Oracle spec is not uint64:" ++ spec) ORACLE_TIME_IN_SPEC_NO_UINT64
  if requestTime = 0 then throw (.invalidState "Oracle check failed: requestTime > 0")
  let pow ← requireMember JsonTree.uint64? members "pow"
    (textBytes "No  pow in Oracle spec:" ++ spec) ORACLE_NO_POW_IN_SPEC
    (textBytes "Pow in Oracle spec is not uint64:" ++ spec) ORACLE_POW_IN_SPEC_NO_UINT64
  oracleCheck (← verifyPow lib spec) (textBytes "PoW did not verify") ORACLE_POW_DID_NOT_VERIFY
  return { spec := spec, receipt := hashForOracle lib spec, chainid := chainid, uri := uri
           encoding := encoding, requestTime := requestTime, pow := pow, ethApi := [], jsps := []
           trims := [], post := [], fromAddress := [], toAddress := [], data := [], gas := []
           blockId := [] }

/-- The constructor. -/
def parseSpec (spec : Bytes) : Except OracleThrow OracleRequestSpec := do
  oracleCheck (decide (spec.length ≤ MAX_ORACLE_SPEC_LEN))
    (textBytes "Oracle spec too large:" ++ spec) ORACLE_REQUEST_TOO_LARGE
  oracleCheck (parseDocument spec).isSome (textBytes "Unparsable Oracle spec:" ++ spec)
    ORACLE_UNPARSABLE_SPEC
  let members ← assume ((parseDocument spec).bind getObject?)
  let s ← parseCommon lib members spec
  match members.lookup (textBytes "ethApi") with
  | some value =>
    oracleCheck (getString? value).isSome (textBytes "ethAPI in Oracle spec is not string:" ++ spec)
      ORACLE_ETH_API_NOT_STRING
    let ethApi ← assume (getString? value)
    oracleCheck (ethApi == textBytes "eth_call")
      (textBytes "Eth Method is not supported:" ++ ethApi) ORACLE_ETH_METHOD_NOT_SUPPORTED
    parseEthApiRequestSpec members spec {s with ethApi := ethApi}
  | none =>
    oracleCheck (s.uri != ORACLE_ETH_URL)
      (textBytes "No valid eth API method is provided for eth:// URI") ORACLE_ETH_API_NOT_PROVIDED
    parseWebRequestSpec members spec s

end Parse

/-! ### What an accepted request has -/

/-- Two characters and then hexadecimal digits. -/
def IsHex (text : Bytes) (digits : ℕ → Prop) : Prop :=
  ∃ rest, text = textBytes "0x" ++ rest ∧ digits rest.length ∧ ∀ c ∈ rest, isHexDigit c = true

def IsEthAddress (text : Bytes) : Prop := IsHex text (· = 40)

/-- A number of up to 16 hexadecimal digits, which is one of 64 bits. -/
def IsHexUint64 (text : Bytes) : Prop := IsHex text fun n => 1 ≤ n ∧ n ≤ 16

variable {text : Bytes}

theorem isHex_iff {digits : ℕ → Prop} :
    IsHex text digits ↔ text.take 2 = textBytes "0x" ∧ digits (text.length - 2) ∧
      (text.drop 2).all isHexDigit = true := by
  constructor
  · rintro ⟨rest, rfl, hlength, hall⟩
    refine ⟨rfl, ?_, List.all_eq_true.mpr hall⟩
    rwa [List.length_append, show (textBytes "0x").length = 2 from rfl, Nat.add_sub_cancel_left]
  · rintro ⟨htake, hlength, hall⟩
    refine ⟨text.drop 2, ?_, ?_, List.all_eq_true.mp hall⟩
    · rw [← htake, List.take_append_drop]
    · rwa [List.length_drop]

theorem isValidEthHexAddressString_iff {address : Bytes} :
    isValidEthHexAddressString address = true ↔ IsEthAddress address := by
  unfold isValidEthHexAddressString IsEthAddress
  rw [isHex_iff]
  split_ifs with h
  · refine ⟨nofun, fun ⟨htake, hlength, _⟩ => ?_⟩
    obtain hne | hne := h
    · omega
    · exact absurd htake hne
  · simp only [not_or, not_not] at h
    exact ⟨fun hall => ⟨h.2, by omega, hall⟩, fun hhex => hhex.2.2⟩

theorem isHexEncodedUInt64_iff :
    isHexEncodedUInt64 text = true ↔ IsHexUint64 text := by
  unfold isHexEncodedUInt64 IsHexUint64
  rw [isHex_iff]
  split_ifs with hlength htake
  · exact ⟨nofun, fun ⟨_, _, _⟩ => by omega⟩
  · exact ⟨nofun, fun ⟨htake', _, _⟩ => absurd htake' htake⟩
  · exact ⟨fun hall => ⟨not_not.mp htake, by omega, hall⟩, fun hhex => hhex.2.2⟩

variable {members : Members} {s : OracleRequestSpec} {spec a : Bytes} {lib : SpecLibraries}

theorem readTrims_eq_ok {jsps : List Bytes} {trims : List ℕ}
    (h : readTrims members spec jsps = .ok trims) : trims.length = jsps.length := by
  unfold readTrims at h
  split at h
  · cases h
    exact List.length_replicate
  · obtain ⟨items, h⟩ := after_bind h
    obtain ⟨trims', -, h⟩ := bind_eq_ok.mp h
    obtain ⟨_, hcheck, h⟩ := bind_eq_ok.mp h
    cases h
    exact (eq_of_beq (oracleCheck_eq_ok.mp hcheck)).symm

theorem parseWebRequestSpec_eq_ok {s' : OracleRequestSpec}
    (h : parseWebRequestSpec members spec s = .ok s') :
    1 ≤ s'.jsps.length ∧ s'.jsps.length ≤ ORACLE_MAX_JSPS ∧ s'.trims.length = s'.jsps.length ∧
      s'.ethApi = s.ethApi ∧ s'.spec = s.spec ∧ s'.receipt = s.receipt := by
  obtain ⟨array, h⟩ := after_bind h
  obtain ⟨_, hempty, h⟩ := bind_eq_ok.mp h
  obtain ⟨_, hmany, h⟩ := bind_eq_ok.mp h
  obtain ⟨jsps, hjsps, h⟩ := bind_eq_ok.mp h
  obtain ⟨trims, htrims, h⟩ := bind_eq_ok.mp h
  obtain ⟨post, h⟩ := after_bind h
  cases h
  have hlength := (mapM_eq_ok hjsps).1
  have hpos : array ≠ [] := by simpa using oracleCheck_eq_ok.mp hempty
  refine ⟨?_, ?_, readTrims_eq_ok htrims, rfl, rfl, rfl⟩
  · rw [hlength]
    exact List.length_pos_iff.mpr hpos
  · rw [hlength]
    exact of_decide_eq_true (oracleCheck_eq_ok.mp hmany)

theorem readCall_eq_ok {call : JsonTree} {fromAddress toAddress data gas : Bytes}
    (h : readCall call spec = .ok (fromAddress, toAddress, data, gas)) :
    IsEthAddress fromAddress ∧ IsHexUint64 gas := by
  have h := after_check h
  obtain ⟨fields, h⟩ := after_bind h
  obtain ⟨fromAddress', -, h⟩ := bind_eq_ok.mp h
  obtain ⟨_, hfrom, h⟩ := bind_eq_ok.mp h
  obtain ⟨toAddress', -, h⟩ := bind_eq_ok.mp h
  have h := after_check h
  obtain ⟨data', -, h⟩ := bind_eq_ok.mp h
  obtain ⟨gas', -, h⟩ := bind_eq_ok.mp h
  obtain ⟨_, hgas, h⟩ := bind_eq_ok.mp h
  have h := after_check h
  cases h
  exact ⟨isValidEthHexAddressString_iff.mp (oracleCheck_eq_ok.mp hfrom),
    isHexEncodedUInt64_iff.mp (oracleCheck_eq_ok.mp hgas)⟩

theorem parseEthApiRequestSpec_eq_ok {s' : OracleRequestSpec}
    (h : parseEthApiRequestSpec members spec s = .ok s') :
    IsEthAddress s'.fromAddress ∧ IsHexUint64 s'.gas ∧
      (s'.blockId = textBytes "latest" ∨ IsHexUint64 s'.blockId) ∧ s'.ethApi = s.ethApi ∧
      s'.spec = s.spec ∧ s'.receipt = s.receipt := by
  obtain ⟨⟨call, block⟩, h⟩ := after_bind h
  obtain ⟨⟨fromAddress, toAddress, data, gas⟩, hcall, h⟩ := bind_eq_ok.mp h
  have h := after_check h
  obtain ⟨blockId, h⟩ := after_bind h
  obtain ⟨_, hblock, h⟩ := bind_eq_ok.mp h
  cases h
  obtain ⟨hfrom, hgas⟩ := readCall_eq_ok hcall
  refine ⟨hfrom, hgas, ?_, rfl, rfl, rfl⟩
  obtain hlatest | hhex := (Bool.or_eq_true _ _).mp (oracleCheck_eq_ok.mp hblock)
  · exact .inl (eq_of_beq hlatest)
  · exact .inr (isHexEncodedUInt64_iff.mp hhex)

theorem parseCommon_eq_ok (h : parseCommon lib members spec = .ok s) :
    s.ethApi = [] ∧ s.spec = spec ∧ s.receipt = hashForOracle lib spec := by
  obtain ⟨chainid, h⟩ := after_bind h
  obtain ⟨uri, h⟩ := after_bind h
  have h := after_check h
  obtain ⟨encoding, h⟩ := after_bind h
  have h := after_check h
  obtain ⟨requestTime, h⟩ := after_bind h
  split_ifs at h
  · cases h
  · obtain ⟨pow, h⟩ := after_bind h
    obtain ⟨verified, h⟩ := after_bind h
    have h := after_check h
    cases h
    exact ⟨rfl, rfl, rfl⟩

/-! ### The documented rules -/

/-- The text has a last comma; what stands before it, closed with a brace, is the request
without its last member, which is `pow`. -/
def PowIsLast (text : Bytes) : Prop :=
  ∃ a b members v, text = a ++ 44 :: b ∧ 44 ∉ b ∧
    parseDocument text = some (.object (members ++ [(textBytes "pow", v)])) ∧
    parseDocument (a ++ [125]) = some (.object members)

structure Contract (text : Bytes) (s : OracleRequestSpec) : Prop where
  uri : ORACLE_HTTP_START <+: s.uri ∨ ORACLE_HTTPS_START <+: s.uri ∨ s.uri = ORACLE_ETH_URL
  pow : PowIsLast text
  web : s.isEthApi = false →
    1 ≤ s.jsps.length ∧ s.jsps.length ≤ ORACLE_MAX_JSPS ∧ s.trims.length = s.jsps.length
  ethCall : s.isEthApi = true → IsEthAddress s.fromAddress ∧ IsEthAddress s.toAddress ∧
    IsHexUint64 s.gas ∧ (s.blockId = textBytes "latest" ∨ IsHexUint64 s.blockId)

/-- What the author of an accepted text has to see to: the start of the URI, the address that
is called, and that the text after the last comma, which stands before any zero, is that of a
member `pow` and the closing brace. -/
structure WellWritten (text : Bytes) (s : OracleRequestSpec) : Prop where
  uri : ORACLE_HTTP_START.isPrefixOf s.uri ∨ ORACLE_HTTPS_START.isPrefixOf s.uri ∨
    s.uri = ORACLE_ETH_URL
  toAddress : s.isEthApi = true → isValidEthHexAddressString s.toAddress = true
  pow : ∃ a b v, text = a ++ 44 :: b ∧ 44 ∉ b ∧ 0 ∉ a ∧
    parseDocument (123 :: b) = some (.object [(textBytes "pow", v)])

/-- A zero ends a text for the parser. -/
theorem cString_append_of_mem (h : 0 ∈ a) (b : Bytes) :
    cString (a ++ b) = cString a := by
  unfold cString
  rw [List.takeWhile_append, if_neg]
  intro hlength
  have hall := List.takeWhile_eq_self_iff.mp
    ((List.takeWhile_prefix _).eq_of_length hlength) 0 h
  cases hall

theorem cString_of_not_mem (h : 0 ∉ a) : cString a = a :=
  List.takeWhile_eq_self_iff.mpr fun _ hx => bne_iff_ne.mpr fun h0 => h (h0 ▸ hx)

theorem cString_append (h : 0 ∉ a) (b : Bytes) : cString (a ++ b) = a ++ cString b := by
  unfold cString
  have hall : a.takeWhile (· != 0) = a := cString_of_not_mem h
  rw [List.takeWhile_append, if_pos (by rw [hall])]

/-- A text whose last member can be cut off has no zero before that. -/
theorem not_mem_zero_of_cut {b c : Bytes} {m : Bytes × JsonTree}
    (hdoc : parseDocument (a ++ b) = some (.object (members ++ [m])))
    (hcut : parseDocument (a ++ c) = some (.object members)) : 0 ∉ a := by
  intro ha
  have hsame : parseDocument (a ++ b) = parseDocument (a ++ c) := by
    unfold parseDocument
    rw [cString_append_of_mem ha, cString_append_of_mem ha]
  rw [hdoc, hcut] at hsame
  simp at hsame

theorem powIsLast_iff (h : parseDocument text = some (.object members)) :
    PowIsLast text ↔ ∃ a b v, text = a ++ 44 :: b ∧ 44 ∉ b ∧ 0 ∉ a ∧
      parseDocument (123 :: b) = some (.object [(textBytes "pow", v)]) := by
  constructor
  · rintro ⟨a, b, before, v, rfl, hb, hdoc, hcut⟩
    have ha : 0 ∉ a := not_mem_zero_of_cut hdoc hcut
    refine ⟨a, b, v, rfl, hb, ha, ?_⟩
    unfold parseDocument at hdoc hcut ⊢
    rw [cString_append ha] at hdoc hcut
    exact (JsonTree.read_cut_iff hdoc).mp ⟨before, rfl, hcut⟩
  · rintro ⟨a, b, v, rfl, hb, ha, hmember⟩
    unfold parseDocument at h
    rw [cString_append ha] at h
    obtain ⟨before, hmembers, hcut⟩ := (JsonTree.read_cut_iff h).mpr hmember
    refine ⟨a, b, before, v, rfl, hb, ?_, ?_⟩
    · unfold parseDocument
      rw [cString_append ha, ← hmembers]
      exact h
    · unfold parseDocument
      rw [cString_append ha]
      exact hcut

theorem parseSpec_eq_ok (h : parseSpec lib text = .ok s) :
    s.spec = text ∧ ∃ members, parseDocument text = some (.object members) ∧
      (s.isEthApi = false →
        1 ≤ s.jsps.length ∧ s.jsps.length ≤ ORACLE_MAX_JSPS ∧ s.trims.length = s.jsps.length) ∧
      (s.isEthApi = true → IsEthAddress s.fromAddress ∧ IsHexUint64 s.gas ∧
        (s.blockId = textBytes "latest" ∨ IsHexUint64 s.blockId)) := by
  have h := after_check (after_check h)
  obtain ⟨members, hmembers, h⟩ := bind_eq_ok.mp h
  obtain ⟨s₀, hs₀, h⟩ := bind_eq_ok.mp h
  have hdoc : parseDocument text = some (.object members) := by
    obtain ⟨d, hd, hobject⟩ := Option.bind_eq_some_iff.mp (assume_eq_ok.mp hmembers)
    cases d <;> cases hobject
    exact hd
  obtain ⟨hweb₀, hspec₀, -⟩ := parseCommon_eq_ok hs₀
  split at h
  · have h := after_check h
    obtain ⟨ethApi, h⟩ := after_bind h
    obtain ⟨_, hapi, h⟩ := bind_eq_ok.mp h
    obtain ⟨hfrom, hgas, hblock, hethApi, hspec, -⟩ := parseEthApiRequestSpec_eq_ok h
    have heth : s.isEthApi = true := by
      unfold OracleRequestSpec.isEthApi
      rw [hethApi, eq_of_beq (oracleCheck_eq_ok.mp hapi)]
      rfl
    exact ⟨hspec.trans hspec₀, members, hdoc,
      fun hweb => absurd (heth.symm.trans hweb) (by decide), fun _ => ⟨hfrom, hgas, hblock⟩⟩
  · have h := after_check h
    obtain ⟨hpos, hmany, htrims, hethApi, hspec, -⟩ := parseWebRequestSpec_eq_ok h
    have hweb : s.isEthApi = false := by
      unfold OracleRequestSpec.isEthApi
      rw [hethApi, hweb₀]
      rfl
    exact ⟨hspec.trans hspec₀, members, hdoc, fun _ => ⟨hpos, hmany, htrims⟩,
      fun heth => absurd (hweb.symm.trans heth) (by decide)⟩

theorem receipt_of_parseSpec (h : parseSpec lib text = .ok s) :
    text.length ≤ MAX_ORACLE_SPEC_LEN ∧ s.receipt = hashForOracle lib text := by
  obtain ⟨_, hlength, h⟩ := bind_eq_ok.mp h
  have h := after_check h
  obtain ⟨members, h⟩ := after_bind h
  obtain ⟨s₀, hs₀, h⟩ := bind_eq_ok.mp h
  obtain ⟨-, -, hreceipt₀⟩ := parseCommon_eq_ok hs₀
  refine ⟨of_decide_eq_true (oracleCheck_eq_ok.mp hlength), ?_⟩
  split at h
  · have h := after_check h
    obtain ⟨ethApi, h⟩ := after_bind h
    have h := after_check h
    obtain ⟨-, -, -, -, -, hreceipt⟩ := parseEthApiRequestSpec_eq_ok h
    exact hreceipt.trans hreceipt₀
  · have h := after_check h
    obtain ⟨-, -, -, -, -, hreceipt⟩ := parseWebRequestSpec_eq_ok h
    exact hreceipt.trans hreceipt₀

/-- An accepted request meets the documented rules exactly when its text is well written. -/
theorem contract_iff_wellWritten (lib : SpecLibraries) (text : Bytes) (s : OracleRequestSpec)
    (h : parseSpec lib text = .ok s) : Contract text s ↔ WellWritten text s := by
  obtain ⟨-, members, hdoc, hweb, heth⟩ := parseSpec_eq_ok h
  constructor
  · intro hcontract
    refine ⟨?_, ?_, (powIsLast_iff hdoc).mp hcontract.pow⟩
    · simpa [List.isPrefixOf_iff_prefix] using hcontract.uri
    · intro hapi
      exact isValidEthHexAddressString_iff.mpr (hcontract.ethCall hapi).2.1
  · intro hwritten
    refine ⟨?_, (powIsLast_iff hdoc).mpr hwritten.pow, hweb, ?_⟩
    · simpa [List.isPrefixOf_iff_prefix] using hwritten.uri
    · intro hapi
      obtain ⟨hfrom, hgas, hblock⟩ := heth hapi
      exact ⟨hfrom, isValidEthHexAddressString_iff.mp (hwritten.toAddress hapi), hgas, hblock⟩

/-! ### Two requests -/

/-- Any proof of work is enough, and every URL is valid. -/
def easyLibraries : SpecLibraries where
  keccak256 _ := [1]
  parseURL _ := some ⟨[], [], []⟩
  isIpAddress _ := false
  testMode := false

/-- The beginning of a request, and its last member. -/
def webRequest (last : String) : Bytes :=
  textBytes "\x7b\"cid\":1,\"uri\":\"https://a.io\",\"jsps\":[\"/x\"]," ++
    textBytes "\"encoding\":\"json\",\"time\":1" ++ textBytes last

theorem powMember_webRequest :
    ∃ a b v, webRequest ",\"pow\":7\x7d" = a ++ 44 :: b ∧ 44 ∉ b ∧ 0 ∉ a ∧
      parseDocument (123 :: b) = some (.object [(textBytes "pow", v)]) :=
  ⟨webRequest "", textBytes "\"pow\":7\x7d", .number (textBytes "7"), by decide +kernel,
    by decide +kernel, by decide +kernel, rfl⟩

theorem contract_webRequest :
    ∃ s, parseSpec easyLibraries (webRequest ",\"pow\":7\x7d") = .ok s ∧
      Contract (webRequest ",\"pow\":7\x7d") s := by
  obtain ⟨s, hs, huri, hweb⟩ : ∃ s, parseSpec easyLibraries (webRequest ",\"pow\":7\x7d") = .ok s ∧
      ORACLE_HTTPS_START.isPrefixOf s.uri ∧ s.isEthApi = false :=
    exists_ok (by decide +kernel)
  refine ⟨s, hs,
    (contract_iff_wellWritten _ _ s hs).mpr ⟨.inr (.inl huri), ?_, powMember_webRequest⟩⟩
  intro heth
  rw [hweb] at heth
  cases heth

/-- Accepted, with an FTP server for a URI, nobody to call and `pow` at the start. -/
def brokenRequest : Bytes :=
  textBytes "\x7b\"pow\":7,\"cid\":1,\"uri\":\"ftp://a.io\",\"ethApi\":\"eth_call\"," ++
    textBytes "\"params\":[\x7b\"from\":\"0x" ++ List.replicate 40 97 ++
    textBytes "\",\"to\":\"nobody\",\"data\":\"0x\",\"gas\":\"0x1\"\x7d,\"latest\"]," ++
    textBytes "\"encoding\":\"json\",\"time\":1\x7d"

theorem three_rules_broken :
    ∃ s, parseSpec easyLibraries brokenRequest = .ok s ∧ ¬ Contract brokenRequest s ∧
      ¬ (ORACLE_HTTP_START <+: s.uri ∨ ORACLE_HTTPS_START <+: s.uri ∨ s.uri = ORACLE_ETH_URL) ∧
      ¬ IsEthAddress s.toAddress ∧ ¬ PowIsLast brokenRequest := by
  obtain ⟨s, hs, huri, hto⟩ : ∃ s, parseSpec easyLibraries brokenRequest = .ok s ∧
      ¬ (ORACLE_HTTP_START <+: s.uri ∨ ORACLE_HTTPS_START <+: s.uri ∨ s.uri = ORACLE_ETH_URL) ∧
      isValidEthHexAddressString s.toAddress = false :=
    exists_ok (by decide +kernel)
  have hlast : (((parseDocument brokenRequest).bind getObject?).bind List.getLast?).map Prod.fst =
      some (textBytes "time") := by decide +kernel
  refine ⟨s, hs, fun hcontract => huri hcontract.uri, huri, ?_, ?_⟩
  · intro haddress
    rw [isValidEthHexAddressString_iff.mpr haddress] at hto
    cases hto
  · rintro ⟨a, b, members, v, -, -, hdoc, -⟩
    have hname : textBytes "pow" = textBytes "time" := by simpa [hdoc, getObject?] using hlast
    exact absurd hname (by decide)

end SkaleConsensus.Oracle
