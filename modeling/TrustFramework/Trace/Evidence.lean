import TrustFramework.Distinct
import TrustFramework.Json.Reader
import TrustFramework.Recorder.Clip
import TrustFramework.Text.Blank
import TrustFramework.Text.Divided
import TrustFramework.Trace.Fact

/-!
# Evidence in the reports of handlers

The facts about a step are spread over the statebag and the nested records of the
handlers that ran. Each function here looks for one kind of fact.

* `HandlerResult.updates` — the entries of the statebag that a handler set.
* `entriesOf` — nested records as named values.
* `initiatingExchange?`, `backendExchanges` — the profiles that a handler called.
* `enabledProfiles` — the profiles that the user may choose from.
* `exceptionFound?` — the message of the exception that a handler met.
* `BackendCall.read?` — the call that a line of protocol describes.
* `TransformationDetail.read?` — a transformation that ran.
-/

namespace TrustFramework

/-! ### Names -/

/-- The last part of a handler's name. -/
def shortName (handler : String) : String := Text.afterLast '.' handler

/-- The profile that the current profile of a statebag names: what stands before the
last colon. -/
def profileOfCurrent (s : String) : String := ((Text.atLast? ':' s).map Prod.fst).getD s

/-- The step that the current profile of a statebag is at: the number behind the last
colon. -/
def stepOfCurrent? (s : String) : Option Int :=
  (Text.atLast? ':' s).bind fun parts => Text.readInt? parts.2

/-! ### Statebags and records -/

/-- The entries of the statebag that hold claims or other entries. -/
def compoundEntries : List String := ["Complex-CLMS", "ComplexItems"]

/-- The text of an entry of a statebag that has a value, empty for nothing. -/
def updateText? (name : String) (entry : Value) : Option String :=
  if compoundEntries.contains name then none else (entry.get? "v").map Value.shownOrEmpty

/-- The entries of the statebag that a handler set, as texts. -/
def HandlerResult.updates (r : HandlerResult) : Fields String :=
  r.statebag.filterMap fun (name, entry) => (updateText? name entry).map fun s => (name, s)

/-- The named values among the nested records of a value. -/
def entriesOf (v : Value) : List (String × Value) :=
  (((v.get "Values").items?).getD []).filterMap fun entry =>
    (entry.get "Key").text?.map fun key => (key, entry.get "Value")

/-- The values of one name among the nested records of a value. -/
def entriesNamed (name : String) (v : Value) : List Value :=
  ((entriesOf v).filter fun entry => entry.1 = name).map Prod.snd

/-- The profile that the statebag names as the current one. -/
def currentProfile? (r : HandlerResult) : Option String :=
  (r.statebagText? "CTP").bind fun s => if s.isEmpty then none else some (profileOfCurrent s)

/-! ### Exchanges -/

/-- The provider of a profile that names none. -/
def unknownProvider : String := "Unknown"

/-- The profile that an exchange names, with the provider it has if it names none. -/
def exchange? (standard : String) (v : Value) : Option ProfileDetail :=
  (v.get "TechnicalProfileId").solid?.map fun id =>
    { id
      providerType := (v.get "ProtocolProviderType").orElse (.text standard)
      protocolType := v.get "ProtocolType" }

/-- The first exchange that a handler began. -/
def initiatingExchange? (standard : String) (r : HandlerResult) : Option ProfileDetail :=
  (r.recordsOf "InitiatingClaimsExchange").findSome? (exchange? standard)

/-- The exchanges with services that a value records. -/
def backendExchangesIn (v : Value) : List Value :=
  let inner := v.get "InitiatingBackendClaimsExchange"
  entriesNamed "InitiatingBackendClaimsExchange" v ++ (if inner.isObject then [inner] else [])

/-- The exchanges with services that a handler began. -/
def backendExchanges (r : HandlerResult) : List ProfileDetail :=
  ((r.recordsOf "GettingClaims").flatMap backendExchangesIn).filterMap
    (exchange? unknownProvider)

/-- Whether a value is the truth value false. -/
def isFalse : Value → Bool
  | .bool b => !b
  | _ => false

/-- The profile that a value says is enabled. -/
def enabledProfile? (v : Value) : Option Value :=
  if isFalse (v.get "EnabledResult") then none else (v.get "TechnicalProfile").solid?

/-- The profiles that are said to be enabled under a key, without repetition. -/
def enabledProfiles (r : HandlerResult) (key : String) : List Value :=
  distinct ((r.recordsOf key).flatMap fun v =>
    (entriesNamed "TechnicalProfileEnabled" v).filterMap enabledProfile?)

/-! ### Exceptions -/

/-- The exceptions that a record holds. -/
def exceptionsIn (entry : Record) : List Value :=
  if entry.key = "Validation" then entriesNamed "Exception" entry.value
  else if entry.key = "Exception" then [entry.value]
  else []

/-- The message and the code of a recorded exception, if it has a message. -/
def exceptionText? (v : Value) : Option (String × Option String) :=
  (v.get "Message").solid?.map fun message =>
    (message.shown, textUnlessNull (v.get "HResult"))

/-- The message and the code of the exception that a handler met. -/
def exceptionFound? (r : HandlerResult) : Option (String × Option String) :=
  match r.exception with
  | some e => some (e.message, e.hresult)
  | none => (r.records.flatMap exceptionsIn).findSome? exceptionText?

/-! ### Transformations -/

/-- The text of a value, empty for a hollow one. -/
def solidText (v : Value) : String := (v.solid?.map Value.shown).getD ""

/-- The claim that a value names. -/
def ClaimValue.read? (v : Value) : Option ClaimValue :=
  (v.get "PolicyClaimType").solid?.map fun claimType => ⟨claimType, solidText (v.get "Value")⟩

/-- The parameter that a value names. -/
def ParameterValue.read? (v : Value) : Option ParameterValue :=
  ((v.get "ParameterType").orElse (v.get "Id")).solid?.map fun id =>
    ⟨id, solidText (v.get "Value")⟩

/-- A transformation with what one more record says about it. -/
def TransformationDetail.note (t : TransformationDetail) : String × Value →
    TransformationDetail
  | ("Id", .text id) => { t with id := .text id }
  | ("InputClaim", v) =>
    { t with inputClaims := t.inputClaims ++ (ClaimValue.read? v).toList }
  | ("InputParameter", v) =>
    { t with inputParameters := t.inputParameters ++ (ParameterValue.read? v).toList }
  | ("Result", v) => { t with outputClaims := t.outputClaims ++ (ClaimValue.read? v).toList }
  | _ => t

/-- The transformation that nested records describe, if they name it. -/
def TransformationDetail.read? (v : Value) : Option TransformationDetail :=
  let t := (entriesOf v).foldl note { id := .text "" }
  if t.id.isHollow then none else some t

/-! ### Calls -/

/-- Whether two letters are one in any case. The long s is a letter s. -/
def sameLetter (a b : Char) : Bool :=
  a = b || a.toLower = b.toLower || (a.toLower = 's' && b.toNat = 0x17f)

/-- What follows a word at the front of a text, in any case. -/
def afterWord? : List Char → List Char → Option (List Char)
  | [], cs => some cs
  | _ :: _, [] => none
  | w :: ws, c :: cs => if sameLetter w c then afterWord? ws cs else none

/-- The first result of a test on a text and what is left of it further on. -/
def firstFrom? {α : Type} (test : List Char → Option α) : List Char → Option α
  | [] => test []
  | c :: cs => (test (c :: cs)).orElse fun _ => firstFrom? test cs

/-- The characters before the first blank, if there is one at least. -/
def word? (cs : List Char) : Option String :=
  match cs.takeWhile fun c => !Text.isBlank c with
  | [] => none
  | w => some (String.ofList w)

/-- The address behind `Request to`. -/
def requestUri? (cs : List Char) : Option String :=
  firstFrom? (fun rest => (afterWord? "Request to ".toList rest).bind word?) cs

/-- What follows a word that stands at the front of a text as it is. -/
def afterExact? (word : String) (cs : List Char) : Option (List Char) :=
  if word.toList.isPrefixOf cs then some (cs.drop word.length) else none

/-- A text without the blanks in front of it. -/
def skipBlank (cs : List Char) : List Char := cs.dropWhile Text.isBlank

/-- The number that three digits in front of a text make. -/
def threeDigits? (cs : List Char) : Option Nat :=
  match cs.take 3 with
  | [a, b, c] => if [a, b, c].all Text.isDigit then some (Text.digitsValue [a, b, c]) else none
  | _ => none

/-- The code behind `Status:`. -/
def statusCode? (cs : List Char) : Option Nat :=
  firstFrom? (fun rest => (afterExact? "Status:" rest).bind fun rest =>
    threeDigits? (skipBlank rest)) cs

/-- Whether a text ends, or its line does, behind the blanks in front of it. -/
def endsLine (cs : List Char) : Bool :=
  let blanks := cs.takeWhile Text.isBlank
  blanks.contains '\n' || blanks.length = cs.length

/-- The text up to the first closing brace that ends a line. -/
def upToBrace? : List Char → Option (List Char)
  | [] => none
  | '\x7d' :: rest =>
    if endsLine rest then some ['\x7d'] else (upToBrace? rest).map ('\x7d' :: ·)
  | c :: rest => (upToBrace? rest).map (c :: ·)

/-- The text in braces behind `Response:`. -/
def responseText? (cs : List Char) : Option String :=
  firstFrom? (fun rest => (afterExact? "Response:" rest).bind fun rest =>
    match skipBlank rest with
    | '\x7b' :: rest => (upToBrace? rest).map fun body => String.ofList ('\x7b' :: body)
    | _ => none) cs

/-- Whether a text is part of another. -/
def isPartOf (part : String) (cs : List Char) : Bool :=
  (firstFrom? (fun rest => (afterExact? part rest).map fun _ => ()) cs).isSome

/-- The kind of service that a line of protocol is about. -/
def requestType? (cs : List Char) : Option String :=
  if (afterExact? "AAD Request" cs).isSome then some "AAD"
  else if isPartOf "REST API" cs then some "REST"
  else none

/-- The call that a line of protocol describes, if it says anything about one. -/
def BackendCall.read? (s : String) : Option BackendCall :=
  let cs := s.toList
  let raw := responseText? cs
  let call : BackendCall :=
    { requestUri := requestUri? cs
      requestType := requestType? cs
      statusCode := statusCode? cs
      rawResponse := raw
      response := Value.ofOption (raw.bind Json.read?) }
  if call.isEmpty then none else some call

/-- The calls that some lines of protocol describe, one for each address. -/
def distinctCalls (calls : List BackendCall) : List BackendCall :=
  calls.foldl (fun known call =>
    if known.any fun other => other.requestUri = call.requestUri then known
    else known ++ [call]) []

/-- The calls that a handler reports in its statebag, as it came and as an update. -/
def backendCalls (r : HandlerResult) (updates : Fields String) : List BackendCall :=
  distinctCalls (([r.statebagText? "PROT", updates.get? "PROT"].filterMap id).filterMap
    BackendCall.read?)

/-! ### Interactions -/

/-- Whether a field is the word true, in any case. -/
def fieldIsTrue (v : Value) (name : String) : Bool :=
  ((v.get? name).map Value.shown).any fun s => s.toLower = "true"

/-- How the interaction went that a handler reports. -/
def interactionOf? (r : HandlerResult) : Option Interaction :=
  match r.statebag.get? "Complex-API_RESULT" with
  | some (.object fields) =>
    let v := Value.object fields
    if fieldIsTrue v "IsCancelled" then some ⟨Interaction.cancelled, false, none, none⟩
    else if fieldIsTrue v "IsErrored" then some ⟨Interaction.failed, false, none, none⟩
    else if fieldIsTrue v "IsContinue" then some ⟨Interaction.continued, true, none, none⟩
    else none
  | _ => none

end TrustFramework
