import TrustFramework.Ingest.Stitching
import TrustFramework.Schema.Basic
import TrustFramework.Settings.Reading
import TrustFramework.Trace.Reconstruction

/-!
# Log records

Logs come as a list of records, as a table of an export, or as the answer to a query,
which holds such tables. Each is checked against a schema before it is read.

* `LogRecord` — a log with what is known about where it came from.
* `Ingest.Fault` — why logs cannot be read.
* `Ingest.records`, `Ingest.ofText` — the records that a value or a file holds.
* `LogRecord.toLog` — a record as a log to trace.
-/

namespace TrustFramework

/-- A log with what is known about where it came from. -/
structure LogRecord where
  id : String
  timestamp : Timestamp
  policyId : String
  correlationId : String
  clips : List Clip
  roleInstance : String := ""
  /-- The rows that the log came in. -/
  rawIds : List String := []
  payload : String := ""
  dimensions : Dimensions := {}
  deriving Repr, Inhabited

/-- A record as a log to trace. -/
def LogRecord.toLog (r : LogRecord) : LogInput :=
  ⟨r.id, r.timestamp, r.policyId, r.correlationId, r.clips⟩

namespace Ingest

/-- Why logs cannot be read. -/
inductive Fault where
  | invalidTable (problems : List String)
  | invalidRecord (problems : List String)
  | badTimestamp (text : String)
  /-- A value that is neither records nor a table. -/
  | unknownShape
  /-- A file that cannot be read, or holds no value. -/
  | unreadable (path detail : String)
  deriving DecidableEq, Repr

/-- The wording of a fault. -/
def Fault.message : Fault → String
  | invalidTable problems => Settings.bulleted "Invalid Application Insights table:" problems
  | invalidRecord problems => Settings.bulleted "Invalid log record:" problems
  | badTimestamp text => "Unparseable timestamp " ++ Text.quoted text
  | unknownShape =>
    "Expected a list of log records or an Application Insights query response"
  | unreadable path detail => "Cannot read logs from " ++ path ++ ": " ++ detail

/-- The policy of a log that names none. -/
def unknownPolicy : String := "Unknown"

/-- A text with a substitute for the empty one. -/
def textOr (s substitute : String) : String := if s.isEmpty then substitute else s

/-- The moment that a text spells. -/
def timestamp (s : String) : Except Fault Timestamp :=
  match Timestamp.read? s with
  | some t => .ok t
  | none => .error (.badTimestamp s)

/-! ### Tables -/

/-- What a table must be. -/
def tableSchema : Schema :=
  .mapping false ["columns", "rows"]
    [("name", .text false false ""),
      ("columns", .list false (.mapping false ["name"]
        [("name", .text false false ""), ("type", .text false false "")])),
      ("rows", .list false (.list false .any))]

/-- The places of the columns of a table, by name. -/
def columnPlaces (table : Value) : Fields Nat :=
  Fields.ofPairs ((((table.get "columns").items?).getD []).zipIdx.map fun (column, place) =>
    ((column.get "name").shownOrEmpty, place))

/-- The cell of a row in a column, nothing if there is none. -/
def cell (places : Fields Nat) (cells : List Value) (name : String) : Value :=
  Value.ofOption ((places.get? name).bind fun place => cells[place]?)

/-- The row that some cells make. -/
def rowOf (places : Fields Nat) (cells : List Value) (position : Nat) : Row :=
  let textIn := fun (name : String) => (cell places cells name).shownOrEmpty
  { id := textOr (textIn "id") ("row-" ++ toString position)
    timestamp := textIn "timestamp"
    message := textIn "message"
    traceMessage := textIn "traceMessage"
    roleInstance := textIn "cloudRoleInstance"
    dimensions := Dimensions.read (cell places cells "customDimensions") }

/-- The rows of a table. -/
def rowsOf (table : Value) : List Row :=
  (((table.get "rows").items?).getD []).zipIdx.map fun (cells, position) =>
    rowOf (columnPlaces table) (cells.items?.getD []) position

/-- The clips that a payload spells; one that is no value has none. -/
def clipsOf (payload : String) : List Clip :=
  ((Json.read? payload).map Clip.readAll).getD []

/-- The record of an entry. -/
def recordOf (e : Entry) : Except Fault LogRecord := do
  let time ← timestamp e.timestamp
  pure
    { id := e.id
      timestamp := time
      policyId := textOr e.dimensions.userJourney unknownPolicy
      correlationId := textOr e.dimensions.correlationId (e.ids.headD "")
      clips := clipsOf (Text.trim e.message)
      roleInstance := e.roleInstance
      rawIds := e.ids
      payload := e.message
      dimensions := e.dimensions }

/-- The records of a table. One without rows has none, whatever else it is. -/
def ofTable (table : Value) : Except Fault (List LogRecord) :=
  if (table.get "rows").isHollow then .ok []
  else
    match tableSchema.problems (Node.ofValue table) with
    | [] =>
      match stitch (rowsOf table) with
      | .error text => .error (.badTimestamp text)
      | .ok entries => entries.mapM recordOf
    | problems => .error (.invalidTable problems)

/-! ### Records -/

/-- What a record must be. -/
def recordSchema : Schema :=
  .mapping false ["id", "timestamp", "correlationId", "clips"]
    [("id", .text false true ""),
      ("timestamp", .text false true ""),
      ("policyId", .text false false ""),
      ("correlationId", .text false false ""),
      ("clips", .list false (.mapping false ["Kind", "Content"] []))]

/-- The record that a value is. -/
def ofRecord (v : Value) : Except Fault LogRecord :=
  match recordSchema.problems (Node.ofValue v) with
  | [] => do
    let id := (v.get "id").shownOrEmpty
    let time ← timestamp (v.get "timestamp").shownOrEmpty
    pure
      { id
        timestamp := time
        policyId := textOr (v.get "policyId").shownOrEmpty unknownPolicy
        correlationId := (v.get "correlationId").shownOrEmpty
        clips := Clip.readAll (v.get "clips")
        rawIds := [id] }
  | problems => .error (.invalidRecord problems)

/-! ### Anything -/

/-- The table of a query's answer that holds its result. -/
def primary? (tables : List Value) : Option Value :=
  (tables.find? fun table => (table.get "name").text? = some "PrimaryResult") <|> tables.head?

/-- The records that a value holds. -/
def records (v : Value) : Except Fault (List LogRecord) :=
  match v with
  | .list items => items.mapM ofRecord
  | .object fields =>
    match Fields.get? fields "tables" with
    | some (.list tables) => ((primary? tables).map ofTable).getD (.ok [])
    | _ => if Fields.has fields "rows" then ofTable (.object fields) else .error .unknownShape
  | _ => .error .unknownShape

/-- The records of a file, given what it holds. -/
def ofText (path text : String) : Except Fault (List LogRecord) :=
  match Json.read? (Text.withLineFeeds text) with
  | some v => records v
  | none => .error (.unreadable path Text.untold)

end Ingest
end TrustFramework
