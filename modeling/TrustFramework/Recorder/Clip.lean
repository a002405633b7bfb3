import TrustFramework.Value

/-!
# Clips of the journey recorder

The recorder writes a list of clips, each with a kind and a content. Known kinds are
read into what they say; any other clip, and a known one whose content has the wrong
shape, is kept as it is, so that newer recorders can be read.

* `Clip` — the kinds of clips.
* `HandlerResult` — what a handler reported.
* `Clip.read?`, `Clip.readAll` — the clips that values describe.
* `Clip.write` — the value that describes a clip.
-/

namespace TrustFramework

/-- What the recorder says about a log as a whole. -/
structure Headers where
  recorderEndpoint : String := ""
  correlationId : String := ""
  eventInstance : String := ""
  tenantId : String := ""
  policyId : String := ""
  deriving DecidableEq, Repr, Inhabited

/-- The message of an exception that has none. -/
def unknownError : String := "Unknown error"

/-- An exception that was recorded, with the one that led to it. -/
inductive RecordedException where
  | mk (message : String) (hresult : Option String) (data : Option (List (String × Value)))
      (inner : Option RecordedException)
  deriving Repr, Inhabited

namespace RecordedException

/-- The message. -/
def message : RecordedException → String
  | mk message _ _ _ => message

/-- The result code. -/
def hresult : RecordedException → Option String
  | mk _ hresult _ _ => hresult

/-- The exception nothing is known about. -/
def unknown : RecordedException := mk unknownError none none none

end RecordedException

/-- A named value in the record of a handler. -/
structure Record where
  key : String
  value : Value
  deriving Repr, Inhabited

/-- What a handler reported. -/
structure HandlerResult where
  result : Bool := false
  predicateResult : Option String := none
  statebag : Fields Value := []
  records : List Record := []
  exception : Option RecordedException := none
  deriving Repr, Inhabited

/-- A clip. -/
inductive Clip where
  | headers (h : Headers)
  | transition (eventName stateName : String)
  | predicate (handler : String)
  | action (handler : String)
  | handlerResult (r : HandlerResult)
  | fatal (exception : RecordedException) (time : Option String)
  /-- Any other clip; a known one says what is wrong with it. -/
  | unrecognized (kind : String) (content : Value) (problem : Option String)
  deriving Repr, Inhabited

/-! ### Entries of a statebag -/

/-- The text of an entry of a statebag: the value of an object, or a text. -/
def entryText? : Value → Option String
  | .object fields =>
    match Fields.get? fields "v" with
    | none => none
    | some .null => none
    | some v => some v.shown
  | .text s => if s.isEmpty then none else some s
  | _ => none

namespace HandlerResult

/-- The text of an entry of the statebag. -/
def statebagText? (r : HandlerResult) (key : String) : Option String :=
  (r.statebag.get? key).bind entryText?

/-- The values recorded under a key, but for hollow ones. -/
def recordsOf (r : HandlerResult) (key : String) : List Value :=
  (r.records.filter fun entry => entry.key = key && !entry.value.isHollow).map Record.value

/-- The first value recorded under a key that is not hollow. -/
def record? (r : HandlerResult) (key : String) : Option Value := (r.recordsOf key).head?

end HandlerResult

/-! ### Reading -/

/-- The field of a content as text, empty if it is nothing. -/
def contentText (content : Value) (name : String) : String :=
  (content.get name).shownOrEmpty

/-- A value as text unless it is nothing. -/
def textUnlessNull : Value → Option String
  | .null => none
  | v => some v.shown

namespace RecordedException

mutual
/-- The exception a content describes. -/
def read : Value → RecordedException
  | .object fields =>
    let content := Value.object fields
    let message := contentText content "Message"
    mk (if message.isEmpty then unknownError else message)
      (textUnlessNull (content.get "HResult"))
      (content.get "Data").fields?
      (readInner fields)
  | _ => unknown

/-- The exception among fields that led to another. -/
def readInner : List (String × Value) → Option RecordedException
  | [] => none
  | (name, v) :: rest =>
    if name = "Exception" then (if v.isObject then some (read v) else none)
    else readInner rest
end

end RecordedException

namespace HandlerResult

/-- The record an item describes; one that is no object says nothing. -/
def readRecord : Value → Record
  | .object fields =>
    let item := Value.object fields
    ⟨(item.get "Key").shownOrEmpty, item.get "Value"⟩
  | _ => ⟨"", .null⟩

/-- The records of a content. -/
def readRecords (content : Value) : List Record :=
  match content.get "RecorderRecord" with
  | .object fields => (((Value.object fields).get "Values").items?.getD []).map readRecord
  | _ => []

/-- The entries of a statebag that are something. -/
def readStatebag (content : Value) : Fields Value :=
  ((content.get "Statebag").fields?.getD []).filter fun entry => !entry.2.isNull

/-- The exception of a content, if it has an object for one. -/
def readException? (content : Value) : Option RecordedException :=
  if (content.get "Exception").isObject then
    some (RecordedException.read (content.get "Exception"))
  else none

/-- Whether a value is the truth value true. -/
def isTrue : Value → Bool
  | .bool b => b
  | _ => false

/-- What a content says a handler reported. -/
def read (content : Value) : HandlerResult :=
  { result := isTrue (content.get "Result")
    predicateResult := (content.get "PredicateResult").text?
    statebag := readStatebag content
    records := readRecords content
    exception := readException? content }

end HandlerResult

/-- What a content says about a log as a whole. -/
def Headers.read (content : Value) : Headers :=
  { recorderEndpoint := contentText content "UserJourneyRecorderEndpoint"
    correlationId := contentText content "CorrelationId"
    eventInstance := contentText content "EventInstance"
    tenantId := contentText content "TenantId"
    policyId := contentText content "PolicyId" }

namespace Clip

/-- A clip of a kind whose content has to be an object. -/
def ofObject (kind : String) (content : Value) (clip : Clip) : Clip :=
  if content.isObject then clip
  else .unrecognized kind content (some (kind ++ " content is not an object"))

/-- The clip that a kind and a content make. -/
def ofContent (kind : String) (content : Value) : Clip :=
  match kind with
  | "Headers" => ofObject kind content (.headers (Headers.read content))
  | "Transition" => ofObject kind content
      (.transition (contentText content "EventName") (contentText content "StateName"))
  | "Predicate" => .predicate content.shownOrEmpty
  | "Action" => .action content.shownOrEmpty
  | "HandlerResult" => ofObject kind content (.handlerResult (HandlerResult.read content))
  | "FatalException" | "Exception" =>
    .fatal (RecordedException.read (content.get "Exception")) (content.get "Time").text?
  | _ => .unrecognized kind content none

/-- The clip a value describes, if it has a kind and a content. -/
def read? (v : Value) : Option Clip :=
  match v.get? "Kind", v.get? "Content" with
  | some kind, some content => some (ofContent kind.shownOrEmpty content)
  | _, _ => none

/-- The clips that the items of a list describe. -/
def readAll (v : Value) : List Clip := ((v.items?).getD []).filterMap read?

/-! ### Writing -/

/-- The name of a clip's kind. -/
def kind : Clip → String
  | headers _ => "Headers"
  | transition _ _ => "Transition"
  | predicate _ => "Predicate"
  | action _ => "Action"
  | handlerResult _ => "HandlerResult"
  | fatal _ _ => "FatalException"
  | unrecognized kind _ _ => kind

end Clip

/-- A field, if there is something to put into it. -/
def optionalField (name : String) (v : Option Value) : Fields Value :=
  (v.map fun v => (name, v)).toList

mutual
/-- The content that describes an exception. -/
def RecordedException.write : RecordedException → Value
  | .mk message hresult data inner =>
    .object ([("Message", .text message)] ++
      optionalField "HResult" (hresult.map .text) ++
      optionalField "Data" (data.map .object) ++
      RecordedException.writeInner inner)

/-- The field that describes the exception that led to another. -/
def RecordedException.writeInner : Option RecordedException → List (String × Value)
  | none => []
  | some e => [("Exception", RecordedException.write e)]
end

/-- A record as a value. -/
def Record.write (entry : Record) : Value :=
  .object [("Key", .text entry.key), ("Value", entry.value)]

/-- The content that describes what a handler reported. -/
def HandlerResult.write (r : HandlerResult) : Value :=
  .object ([("Result", .bool r.result)] ++
    optionalField "PredicateResult" (r.predicateResult.map .text) ++
    (if r.statebag.isEmpty then [] else [("Statebag", .object r.statebag)]) ++
    (if r.records.isEmpty then []
      else [("RecorderRecord", .object [("Values", .list (r.records.map Record.write))])]) ++
    optionalField "Exception" (r.exception.map RecordedException.write))

/-- The content that describes a log as a whole. -/
def Headers.write (h : Headers) : Value :=
  .object
    [("UserJourneyRecorderEndpoint", .text h.recorderEndpoint),
      ("CorrelationId", .text h.correlationId),
      ("EventInstance", .text h.eventInstance),
      ("TenantId", .text h.tenantId),
      ("PolicyId", .text h.policyId)]

namespace Clip

/-- The content of a clip. -/
def content : Clip → Value
  | headers h => h.write
  | transition eventName stateName =>
    .object [("EventName", .text eventName), ("StateName", .text stateName)]
  | predicate handler => .text handler
  | action handler => .text handler
  | handlerResult r => r.write
  | fatal exception time =>
    .object ([("Exception", exception.write)] ++
      optionalField "Time" ((time.filter fun s => !s.isEmpty).map .text))
  | unrecognized _ content _ => content

/-- The value that describes a clip. -/
def write (clip : Clip) : Value :=
  .object [("Kind", .text clip.kind), ("Content", clip.content)]

end Clip

/-- The claims that a handler reported, as texts. -/
def HandlerResult.claims (r : HandlerResult) : Fields String :=
  match r.statebag.get? "Complex-CLMS" with
  | some (.object fields) => Fields.mapValues Value.shownOrEmpty fields
  | _ => []

end TrustFramework
