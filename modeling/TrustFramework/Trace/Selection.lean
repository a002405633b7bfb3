import TrustFramework.Trace.Step

/-!
# What steps tell about each other

Two things about a step are known only when the others are: how long it took, and, if it
offered several profiles, which one the user chose.

* `withDurations` — the steps with the time until the next.
* `matchSelection?` — the option that the name of an exchange stands for.
* `withSelections` — the steps with the options the user chose.
-/

namespace TrustFramework

/-! ### Durations -/

/-- The steps with the milliseconds until the next; the last has none. -/
def withDurations : List TraceStep → List TraceStep
  | [] => []
  | [s] => [{ s with duration := none }]
  | s :: t :: rest =>
    { s with duration := some (max 0 (Timestamp.elapsedMs s.timestamp t.timestamp)) } ::
      withDurations (t :: rest)

/-! ### Selections -/

/-- The letter or digit of a name that a character stands for. The sign of kelvin and the
dotted capital count as the letters they look like. -/
def plainLetter? (c : Char) : Option Char :=
  if c.toNat = 0x212a then some 'k'
  else if c.toNat = 0x130 then some 'i'
  else
    let c := c.toLower
    if ('a' ≤ c && c ≤ 'z') || ('0' ≤ c && c ≤ '9') then some c else none

/-- A name with nothing but its small letters and digits. -/
def normalizedName (s : String) : List Char := s.toList.filterMap plainLetter?

/-- What the names of exchanges end in. -/
def exchangeEnding : List Char := "exchange".toList

/-- A name without the ending of exchanges. -/
def withoutExchange (cs : List Char) : List Char :=
  if exchangeEnding.isSuffixOf cs then cs.take (cs.length - exchangeEnding.length) else cs

/-- The option that a name stands for: the name itself, or the first option that starts
with the name of the exchange, letters and digits alone. -/
def matchSelection? (selection : String) (options : List String) : Option String :=
  if options.contains selection then some selection
  else
    match withoutExchange (normalizedName selection) with
    | [] => none
    | wanted => options.find? fun option => wanted.isPrefixOf (normalizedName option)

/-- The texts among values. -/
def textsAmong (values : List Value) : List String := values.filterMap Value.text?

/-- The option of a step that some text stands for, unless the text is empty. -/
def matched? (s : TraceStep) (selection : String) : Option Value :=
  if selection.isEmpty then none
  else (matchSelection? selection (textsAmong s.options)).bind fun option =>
    (Value.text option).solid?

/-- The first of some profiles that is among the options of a step. -/
def offered? (s : TraceStep) (profiles : List Value) : Option Value :=
  profiles.find? s.options.contains

/-- The option that the user chose: a profile of the step itself; else the one that the
statebag or the step names; else a profile of the next step. -/
def resolve? (s : TraceStep) (next : Option TraceStep) : Option Value :=
  ((offered? s s.profiles).bind Value.solid?) <|>
    ((s.statebag.get? "TAGE").bind (matched? s)) <|>
    (s.selected.text?.bind (matched? s)) <|>
    (next.bind fun t => offered? s t.profiles)

/-- A step with the option the user chose, if it offers several and has none of them. -/
def withSelection (s : TraceStep) (next : Option TraceStep) : TraceStep :=
  if s.options.length < 2 || s.options.contains s.selected then s
  else
    match (resolve? s next).bind Value.solid? with
    | some option => { s with selected := option }
    | none => s

/-- The steps with the options the user chose. -/
def withSelections : List TraceStep → List TraceStep
  | [] => []
  | s :: rest => withSelection s rest.head? :: withSelections rest

end TrustFramework
