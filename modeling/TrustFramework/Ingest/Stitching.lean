import TrustFramework.Ingest.Dimensions
import TrustFramework.Time.Timestamp

/-!
# Stitching rows together

The recorder splits a long payload over several rows. A payload starts with an opening
bracket and ends with a closing one; the rows between are its continuation.

* `Row` — a row of an export.
* `Entry` — a payload with the rows it came in.
* `stitchFrom` — the entries of rows in order, behind an entry that is not complete.
* `stitchFrom_none_cons`, `stitchFrom_some_cons` — what the next row does.
* `stitch` — the entries of the rows of an export.
-/

namespace TrustFramework

/-- A row of an export. -/
structure Row where
  id : String
  timestamp : String := ""
  message : String := ""
  traceMessage : String := ""
  roleInstance : String := ""
  dimensions : Dimensions := {}
  deriving DecidableEq, Repr, Inhabited

/-- The piece of a payload that a row carries. -/
def Row.part (r : Row) : String := if r.traceMessage.isEmpty then r.message else r.traceMessage

/-- Whether a piece begins a payload: its first character that is not blank is an opening
bracket. -/
def opensPayload (part : String) : Bool := (Text.trimmed part.toList).head? = some '['

/-- Whether a piece ends a payload. -/
def closesPayload (part : String) : Bool := (Text.trimmed part.toList).getLast? = some ']'

/-- A payload with the rows it came in. -/
structure Entry where
  ids : List String
  timestamp : String
  roleInstance : String
  message : String
  dimensions : Dimensions
  deriving DecidableEq, Repr, Inhabited

namespace Entry

/-- The entry of a single row. -/
def ofRow (r : Row) : Entry := ⟨[r.id], r.timestamp, r.roleInstance, r.part, r.dimensions⟩

/-- An entry continued by a row. -/
def continued (e : Entry) (r : Row) : Entry :=
  { e with ids := e.ids ++ [r.id], message := e.message ++ r.part }

/-- The identifier of an entry: those of its rows. -/
def id (e : Entry) : String := ":".intercalate e.ids

end Entry

/-- The entries of rows in order, behind an entry that is not complete if there is one. -/
def stitchFrom : Option Entry → List Row → List Entry
  | none, [] => []
  | some last, [] => if last.message.isEmpty then [] else [last]
  | none, r :: rest =>
    if opensPayload r.part && !closesPayload r.part then stitchFrom (some (Entry.ofRow r)) rest
    else Entry.ofRow r :: stitchFrom none rest
  | some e, r :: rest =>
    if opensPayload r.part then
      e :: (if closesPayload r.part then Entry.ofRow r :: stitchFrom none rest
        else stitchFrom (some (Entry.ofRow r)) rest)
    else if closesPayload r.part then e.continued r :: stitchFrom none rest
    else stitchFrom (some (e.continued r)) rest

@[simp] theorem stitchFrom_none_nil : stitchFrom none [] = [] := rfl

theorem stitchFrom_some_nil {e : Entry} (h : e.message ≠ "") : stitchFrom (some e) [] = [e] :=
  if_neg (by simpa using h)

theorem stitchFrom_none_cons (r : Row) (rest : List Row) :
    stitchFrom none (r :: rest) =
      if opensPayload r.part && !closesPayload r.part then stitchFrom (some (Entry.ofRow r)) rest
      else Entry.ofRow r :: stitchFrom none rest := rfl

theorem stitchFrom_some_cons (e : Entry) (r : Row) (rest : List Row) :
    stitchFrom (some e) (r :: rest) =
      if opensPayload r.part then
        e :: (if closesPayload r.part then Entry.ofRow r :: stitchFrom none rest
          else stitchFrom (some (Entry.ofRow r)) rest)
      else if closesPayload r.part then e.continued r :: stitchFrom none rest
      else stitchFrom (some (e.continued r)) rest := rfl

/-- The moment of a row; one without a time comes before all others. The text of the time
is the fault of one that cannot be read. -/
def Row.moment (r : Row) : Except String Int :=
  if r.timestamp.isEmpty then .ok Timestamp.start.instant
  else
    match Timestamp.read? r.timestamp with
    | some t => .ok t.instant
    | none => .error r.timestamp

/-- Rows in the order of their times, those of one time as they stand. -/
def sortRows (rows : List Row) : Except String (List Row) := do
  let timed ← rows.mapM fun r => do
    let moment ← r.moment
    pure (moment, r)
  pure ((timed.mergeSort fun a b => a.1 ≤ b.1).map Prod.snd)

/-- The entries of the rows of an export. -/
def stitch (rows : List Row) : Except String (List Entry) := do
  let rows ← sortRows rows
  pure (stitchFrom none rows)

end TrustFramework
