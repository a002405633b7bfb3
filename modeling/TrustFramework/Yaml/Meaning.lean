import TrustFramework.Yaml.Tag
import TrustFramework.Time.Timestamp
import TrustFramework.Schema.Node

/-!
# The meaning of scalars

A plain scalar without a tag is of the kind it looks like: nothing, a truth value, a
number, a date, or else a text. A number may have underscores among its digits, a base,
or parts of sixty; a date may have a time.

* `Kind.implied` — the kind a text looks like.
* `truthOf`, `wholeOf`, `realOf`, `dateOf` — what a text denotes as a certain kind.
-/

namespace TrustFramework
namespace Yaml

/-! ### Forms of numbers -/

/-- A digit or an underscore. -/
def isDigitOrLow (c : Char) : Bool := c.isDigit || c = '_'

/-- A text without the sign at its front. -/
def unsigned : List Char → List Char
  | '+' :: rest => rest
  | '-' :: rest => rest
  | cs => cs

/-- Parts of sixty, each one or two digits behind a colon; the rest must satisfy `p`. -/
def isSixties (p : List Char → Bool) : List Char → Bool
  | ':' :: a :: b :: rest =>
    if a.isDigit then
      if b.isDigit then '0' ≤ a && a ≤ '5' && (p rest || isSixties p rest)
      else p (b :: rest) || isSixties p (b :: rest)
    else false
  | [':', a] => a.isDigit && p []
  | _ => false

/-- Whether a text has the form of a whole number: binary, octal, hexadecimal or
decimal, or with parts of sixty. -/
def looksWhole (cs : List Char) : Bool :=
  match unsigned cs with
  | '0' :: 'b' :: ds => !ds.isEmpty && ds.all fun c => c = '0' || c = '1' || c = '_'
  | '0' :: 'x' :: ds => !ds.isEmpty && ds.all fun c => (Json.hexValue? c).isSome || c = '_'
  | '0' :: ds => ds.all fun c => ('0' ≤ c && c ≤ '7') || c = '_'
  | c :: ds =>
    let rest := ds.dropWhile isDigitOrLow
    c.isDigit && (rest.isEmpty || isSixties List.isEmpty rest)
  | [] => false

/-- Whether a text is nothing, or an exponent with its sign. -/
def isExponent : List Char → Bool
  | [] => true
  | e :: sign :: ds =>
    (e = 'e' || e = 'E') && (sign = '+' || sign = '-') && !ds.isEmpty && ds.all Char.isDigit
  | _ => false

/-- Whether a text has the form of a number with a point. -/
def looksReal (cs : List Char) : Bool :=
  match unsigned cs with
  | '.' :: rest =>
    ["inf", "Inf", "INF"].contains (String.ofList rest) ||
      (cs.head? = some '.' &&
        (["nan", "NaN", "NAN"].contains (String.ofList rest) ||
          (rest.head?.any Char.isDigit && isExponent (rest.dropWhile isDigitOrLow))))
  | c :: ds =>
    c.isDigit &&
      match ds.dropWhile isDigitOrLow with
      | '.' :: rest => isExponent (rest.dropWhile isDigitOrLow)
      | rest => isSixties (fun rest =>
          rest.head? = some '.' && (rest.drop 1).all isDigitOrLow) rest
  | [] => false

/-! ### Dates -/

/-- A time of a day, and how it relates to universal time. -/
structure Clock where
  hour : Nat
  minute : Nat
  second : Nat
  micros : Nat
  /-- The minutes by which the time is ahead of universal time. -/
  ahead : Option Int
  deriving DecidableEq, Repr

/-- A date, with a time perhaps. -/
structure Stamp where
  date : Time.Date
  clock : Option Clock
  /-- Whether month and day have two digits each. -/
  full : Bool
  deriving DecidableEq, Repr

/-- One or two digits at the front of a text: their value and number, and the rest. -/
def oneOrTwo? : List Char → Option (Nat × Nat × List Char)
  | a :: b :: rest =>
    if a.isDigit then
      if b.isDigit then some (Text.digitsValue [a, b], 2, rest)
      else some (Text.digitsValue [a], 1, b :: rest)
    else none
  | [a] => if a.isDigit then some (Text.digitsValue [a], 1, []) else none
  | [] => none

/-- A certain character and two digits behind it. -/
def twoBehind? (mark : Char) : List Char → Option (Nat × List Char)
  | c :: a :: b :: rest =>
    if c = mark && a.isDigit && b.isDigit then some (Text.digitsValue [a, b], rest) else none
  | _ => none

/-- How a time relates to universal time, up to the end of a text. -/
def readZone? (cs : List Char) : Option (Option Int) :=
  match cs.dropWhile isSpaceOrTab with
  | [] => if cs.isEmpty then some none else none
  | 'Z' :: rest => if rest.isEmpty then some (some 0) else none
  | sign :: rest =>
    if sign = '+' ∨ sign = '-' then do
      let (hours, _, rest) ← oneOrTwo? rest
      let minutes ← if rest.isEmpty then some 0 else
        match twoBehind? ':' rest with
        | some (minutes, []) => some minutes
        | _ => none
      let ahead : Int := hours * 60 + minutes
      pure (some (if sign = '-' then -ahead else ahead))
    else none

/-- A time up to the end of a text. -/
def readClock? (cs : List Char) : Option Clock := do
  let (hour, _, rest) ← oneOrTwo? cs
  let (minute, rest) ← twoBehind? ':' rest
  let (second, rest) ← twoBehind? ':' rest
  let (fraction, rest) := match rest with
    | '.' :: rest => rest.span Char.isDigit
    | rest => ([], rest)
  let ahead ← readZone? rest
  pure ⟨hour, minute, second, Text.digitsValue ((fraction ++ List.replicate 6 '0').take 6), ahead⟩

/-- A date up to the end of a text: a year of four digits, a month and a day, and a time
behind a letter or blanks. -/
def readStamp? (cs : List Char) : Option Stamp := do
  let (year, rest) := (cs.take 4, cs.drop 4)
  if !(year.length = 4 && year.all Char.isDigit) then none
  let '-' :: rest := rest | none
  let (month, monthDigits, rest) ← oneOrTwo? rest
  let '-' :: rest := rest | none
  let (day, dayDigits, rest) ← oneOrTwo? rest
  let date := ⟨Text.digitsValue year, month, day⟩
  let full := monthDigits = 2 && dayDigits = 2
  match rest with
  | [] => pure ⟨date, none, full⟩
  | c :: rest =>
    if c = 'T' ∨ c = 't' then pure ⟨date, some (← readClock? rest), full⟩
    else if isSpaceOrTab c then
      pure ⟨date, some (← readClock? (rest.dropWhile isSpaceOrTab)), full⟩
    else none

/-- Whether a text has the form of a date. A date without a time is written in full. -/
def looksDate (cs : List Char) : Bool :=
  (readStamp? cs).any fun s => s.clock.isSome || s.full

/-- The kind a plain scalar looks like. -/
def Kind.implied (s : String) : Kind :=
  let cs := s.toList
  if ["", "~", "null", "Null", "NULL"].contains s then null
  else if ["yes", "Yes", "YES", "no", "No", "NO", "true", "True", "TRUE", "false", "False",
      "FALSE", "on", "On", "ON", "off", "Off", "OFF"].contains s then bool
  else if looksReal cs then real
  else if looksWhole cs then int
  else if looksDate cs then date
  else if s = "<<" then merge
  else if s = "=" then standIn
  else if ["!", "&", "*"].contains s then unknown
  else text

/-! ### What scalars denote -/

/-- The number that digits of a base spell. -/
def numberIn (base : Nat) (ds : List Char) : Except Defect Int :=
  match ds.foldlM (fun n c => (Json.hexValue? c).bind fun d =>
      if d < base then some (n * base + d) else none) 0 with
  | some n => if ds.isEmpty then .error .outOfRange else .ok n
  | none => .error .outOfRange

/-- The pieces of a text between its colons. -/
def colonPieces (cs : List Char) : List String := (String.ofList cs).splitOn ":"

/-- The whole number a text without a sign denotes. -/
def unsignedWhole (cs : List Char) : Except Defect Int :=
  match cs with
  | [] => .error .noDigits
  | ['0'] => .ok 0
  | '0' :: 'b' :: ds => numberIn 2 ds
  | '0' :: 'x' :: ds => numberIn 16 ds
  | '0' :: _ => numberIn 8 cs
  | _ => (colonPieces cs).foldlM (fun n piece =>
      match Text.readInt? piece with
      | some d => .ok (n * 60 + d)
      | none => .error .outOfRange) 0

/-- Whether a text has a minus sign at its front, and the text without its sign. -/
def signed (cs : List Char) : Bool × List Char := (cs.head? = some '-', unsigned cs)

/-- The whole number a text denotes. -/
def wholeOf (s : String) : Except Defect Int := do
  let (negative, cs) := signed (s.toList.filter (· ≠ '_'))
  let n ← unsignedWhole cs
  pure (if negative then -n else n)

/-- The number a decimal denotes, in lower case and without a sign. -/
def decimalOf (s : String) : Except Defect Binary64 := do
  let cs := Text.trimmed s.toList
  if ["inf", "infinity"].contains (String.ofList cs) then return .infinite false
  if String.ofList cs = "nan" then return .nan
  let (whole, rest) := cs.span Char.isDigit
  let (fraction, rest) := match rest with
    | '.' :: rest => rest.span Char.isDigit
    | rest => ([], rest)
  if (whole ++ fraction).isEmpty then throw .outOfRange
  let (exponent, rest) := (Json.readExponent? rest).getD (0, rest)
  if !rest.isEmpty then throw .outOfRange
  pure (.ofDecimal false (Text.digitsValue (whole ++ fraction)) (exponent - fraction.length))

/-- The number with the other sign. -/
def negated : Binary64 → Binary64
  | .finite negative m e => .finite (!negative) m e
  | .infinite negative => .infinite (!negative)
  | .nan => .nan

/-- A sum of parts of sixty, the last one first, of which the first stands for `base`. -/
def sumOfSixties : Binary64 → Nat → List Binary64 → Binary64
  | sum, _, [] => sum
  | sum, base, x :: rest => sumOfSixties (sum.plus (x.times base)) (base * 60) rest

/-- The number a text denotes. -/
def realOf (s : String) : Except Defect Binary64 := do
  let (negative, cs) := signed ((s.toList.filter (· ≠ '_')).map Char.toLower)
  let x ←
    if cs.isEmpty then throw .noDigits
    else if cs = ".inf".toList then pure (.infinite false)
    else if cs = ".nan".toList then pure .nan
    else match ← (colonPieces cs).mapM decimalOf with
      | [x] => pure x
      | parts => pure (sumOfSixties (.zero false) 1 parts.reverse)
  pure (if negative then negated x else x)

/-- The truth value of a word, in any case. -/
def truthOf (s : String) : Except Defect Bool :=
  let word := String.ofList (s.toList.map Char.toLower)
  if ["yes", "true", "on"].contains word then .ok true
  else if ["no", "false", "off"].contains word then .ok false
  else .error .unknownWord

/-- A number with as many digits at least. -/
def padded (width n : Nat) : String := String.ofList (Timestamp.padded width n)

/-- A distance from universal time: its literal and its text. -/
def zoneForms (ahead : Int) : String × String :=
  let size := ahead.natAbs
  let shown := (if ahead < 0 then "-" else "+") ++ padded 2 (size / 60) ++ ":" ++
    padded 2 (size % 60)
  if ahead = 0 then ("datetime.timezone.utc", shown)
  else
    let seconds := toString ((ahead * 60) % 86400)
    let delta := (if ahead < 0 then "days=-1, " else "") ++ "seconds=" ++ seconds
    ("datetime.timezone(datetime.timedelta(" ++ delta ++ "))", shown)

/-- A date as a node. -/
def dateNode (d : Time.Date) : Node :=
  .other ("datetime.date(" ++ Value.commaJoined ([d.year, d.month, d.day].map toString) ++ ")")
    (padded 4 d.year ++ "-" ++ padded 2 d.month ++ "-" ++ padded 2 d.day)

/-- A date with a time as a node. The literal leaves out seconds and microseconds that
are zero. -/
def momentNode (d : Time.Date) (c : Clock) : Node :=
  let tail := if c.micros ≠ 0 then [c.second, c.micros]
    else if c.second ≠ 0 then [c.second] else []
  let parts := ([d.year, d.month, d.day, c.hour, c.minute] ++ tail).map toString
  let zone := c.ahead.map zoneForms
  .other
    ("datetime.datetime(" ++ Value.commaJoined (parts ++ (zone.map fun (literal, _) =>
      "tzinfo=" ++ literal).toList) ++ ")")
    ((dateNode d).shown ++ " " ++ padded 2 c.hour ++ ":" ++ padded 2 c.minute ++ ":" ++
      padded 2 c.second ++ (if c.micros ≠ 0 then "." ++ padded 6 c.micros else "") ++
      (zone.map Prod.snd).getD "")

/-- The date a text denotes. -/
def dateOf (s : String) : Except Defect Node :=
  match readStamp? s.toList with
  | none => .error .noDate
  | some stamp =>
    if !stamp.date.isValid then .error .outOfRange
    else match stamp.clock with
      | none => .ok (dateNode stamp.date)
      | some c =>
        if c.hour < 24 ∧ c.minute < 60 ∧ c.second < 60 ∧
            c.ahead.all (fun ahead => ahead.natAbs < 1440) then
          .ok (momentNode stamp.date c)
        else .error .outOfRange

end Yaml
end TrustFramework
