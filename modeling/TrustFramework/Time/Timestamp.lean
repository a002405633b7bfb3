import TrustFramework.Number.Binary64
import TrustFramework.Text.Blank
import TrustFramework.Text.Digit
import TrustFramework.Time.Calendar

/-!
# Timestamps

A timestamp is a reading of a clock and the offset of that clock, both in
microseconds. It is read from the ISO 8601 spellings of a date with or without a
time, and written in universal time.

* `Timestamp` — the type; `Timestamp.instant` is the moment it denotes.
* `Timestamp.read?` — the timestamp a text spells.
* `Timestamp.render?` — the text of a timestamp, if its year in universal time has
  four digits.
* `Timestamp.elapsed`, `Timestamp.elapsedMs` — the time between two timestamps.
-/

namespace TrustFramework

/-- A reading of a clock, in microseconds since the first of January of the year
one, and how far the clock is ahead of universal time. -/
structure Timestamp where
  clock : Int
  offset : Int
  deriving DecidableEq, Repr, Inhabited

namespace Timestamp

open Time

/-! ### Units -/

/-- Microseconds in a second. -/
def second : Nat := 1000000

/-- Microseconds in a day. -/
def day : Nat := 86400 * second

/-- The moment a timestamp denotes, in microseconds of universal time. -/
def instant (t : Timestamp) : Int := t.clock - t.offset

/-- The first moment of the calendar. -/
def start : Timestamp := ⟨0, 0⟩

/-- Whether one timestamp denotes an earlier moment than another, or the same. -/
def le (s t : Timestamp) : Bool := s.instant ≤ t.instant

/-! ### Reading the date -/

/-- Decimal digits at the front of a text, exactly so many, and the rest. -/
def takeDigits? : Nat → List Char → Nat → Option (Nat × List Char)
  | 0, cs, acc => some (acc, cs)
  | n + 1, c :: cs, acc =>
    if c.isDigit then takeDigits? n cs (acc * 10 + (c.toNat - 0x30)) else none
  | _ + 1, [], _ => none

/-- A character that must come next. -/
def expect? (c : Char) : List Char → Option (List Char)
  | d :: rest => if d = c then some rest else none
  | [] => none

/-- Where the date of a text ends. Years have four digits; what follows tells
months and days from weeks, and whether there are hyphens. After a week without
hyphens the parity of the run of digits tells whether a day is part of the date. -/
def dateEnd? (cs : List Char) : Option Nat :=
  let charAt (i : Nat) : Char := (cs[i]?).getD ' '
  if cs.length = 7 then some 7
  else if charAt 4 = '-' then
    if charAt 5 = 'W' then
      if charAt 8 = '-' then
        if cs.length = 9 then none
        else if (charAt 10).isDigit then some 8
        else some 10
      else some 8
    else some 10
  else if charAt 4 = 'W' then
    let run := 7 + ((cs.drop 7).takeWhile Char.isDigit).length
    if run < 9 then some run else if run % 2 = 0 then some 7 else some 8
  else some 8

/-- A date that takes up a whole text. -/
def readDate? (cs : List Char) : Option Date := do
  let (year, rest) ← takeDigits? 4 cs 0
  let hyphens := rest.head? = some '-'
  let rest := if hyphens then rest.drop 1 else rest
  match rest with
  | 'W' :: rest =>
    let (week, rest) ← takeDigits? 2 rest 0
    if rest.isEmpty then weekDate? year week 1
    else
      let rest ← if hyphens then expect? '-' rest else some rest
      let (weekday, _) ← takeDigits? 1 rest 0
      weekDate? year week weekday
  | rest =>
    let (month, rest) ← takeDigits? 2 rest 0
    let rest ← if hyphens then expect? '-' rest else some rest
    let (day, _) ← takeDigits? 2 rest 0
    some ⟨year, month, day⟩

/-! ### Reading the time -/

/-- Hours, minutes, seconds and microseconds, and whether something was left over
behind them. -/
structure Clock where
  hour : Nat := 0
  minute : Nat := 0
  second : Nat := 0
  micro : Nat := 0
  leftover : Bool := false
  deriving Repr

/-- A clock with one more part, counted from the hours. -/
def Clock.setPart (c : Clock) (part value : Nat) : Clock :=
  match part with
  | 0 => { c with hour := value }
  | 1 => { c with minute := value }
  | _ => { c with second := value }

/-- A fraction of a second: as many as six digits; more of them are dropped. `more`
says that something follows the text. -/
def readFraction? (c : Clock) (cs : List Char) (more : Bool) : Option Clock := do
  let width := min 6 cs.length
  let (value, rest) ← takeDigits? width cs 0
  pure { c with
    micro := value * Nat.pow 10 (6 - width)
    leftover := more || !(rest.dropWhile Char.isDigit).isEmpty }

/-- The parts of a time from part number `part` on, two digits each. Colons stand
between all of them or none (`colons`, settled behind the hours); a point or a
comma begins the fraction. One character that begins nothing may end the text. -/
def readParts? : Nat → Nat → Bool → Clock → List Char → Bool → Option Clock
  | 0, _, _, c, cs, more => readFraction? c cs more
  | fuel + 1, part, colons, c, cs, more => do
    let (value, rest) ← takeDigits? 2 cs 0
    let c := c.setPart part value
    match rest with
    | [] => some { c with leftover := more }
    | [_] => some { c with leftover := true }
    | mark :: after =>
      let colons := if part = 0 then mark = ':' else colons
      if colons && mark = ':' then readParts? fuel (part + 1) colons c after more
      else if mark = '.' || mark = ',' then readFraction? c after more
      else if !colons then readParts? fuel (part + 1) colons c rest more
      else none

/-- A time of day or an offset, alone. -/
def readClock? (cs : List Char) (more : Bool) : Option Clock := readParts? 3 0 true {} cs more

/-- Whether a character begins the offset of a time. -/
def beginsOffset (c : Char) : Bool := c = '+' || c = '-' || c = 'Z'

/-- The seconds of a clock. -/
def Clock.seconds (c : Clock) : Nat := c.hour * 3600 + c.minute * 60 + c.second

/-- The microseconds of a clock. -/
def Clock.micros (c : Clock) : Nat := c.seconds * Timestamp.second + c.micro

/-- Whether a clock shows a time of day. -/
def Clock.isValid (c : Clock) : Bool := c.hour ≤ 23 && c.minute ≤ 59 && c.second ≤ 59

/-- The offset from behind its sign, less than a day. An offset of no whole second
is none. -/
def readOffset? (negative : Bool) (cs : List Char) : Option Int := do
  let c ← readClock? cs false
  if c.leftover then none
  else if c.seconds = 0 then some 0
  else if c.micros < day then some (if negative then -(c.micros : Int) else c.micros)
  else none

/-- A time of day with an offset or none; none counts as universal time. -/
def readTime? (cs : List Char) : Option (Clock × Int) :=
  match cs.span fun c => !beginsOffset c with
  | (body, []) => do
    let c ← readClock? body false
    if c.leftover then none else some (c, 0)
  | (body, sign :: rest) => do
    let c ← readClock? body true
    if sign = 'Z' then
      if rest.isEmpty then some (c, 0) else none
    else
      let offset ← readOffset? (sign = '-') rest
      some (c, offset)

/-- A text with every character beyond ASCII doubled: it takes more than one place,
and never stands for a digit or a mark. -/
def widen (cs : List Char) : List Char :=
  cs.flatMap fun c => if c.toNat < 0x80 then [c] else [c, c]

/-- A date, and a time if one character separates it from the date. -/
def readIso? (cs : List Char) : Option Timestamp := do
  let place ← dateEnd? cs
  let date ← readDate? (cs.take place)
  let (clock, offset) ← match cs.drop place with
    | [] => some ({}, 0)
    | _ :: time => readTime? (widen time)
  if date.isValid && clock.isValid then
    some ⟨(date.toDays * day + clock.micros : Nat), offset⟩
  else none

/-! ### Spellings of telemetry -/

/-- A text with its first fraction cut or filled to six digits. A fraction is a
point with digits of any script behind it. -/
def sixDigits : List Char → List Char
  | [] => []
  | '.' :: rest =>
    match rest.span Text.isDigit with
    | ([], _) => '.' :: sixDigits rest
    | (digits, rest) =>
      '.' :: (digits.take 6 ++ List.replicate (6 - digits.length) '0' ++ rest)
  | c :: rest => c :: sixDigits rest

/-- A text with the letter `Z` at its end as an offset. -/
def universal (cs : List Char) : List Char :=
  match cs.reverse with
  | 'Z' :: rest => rest.reverse ++ "+00:00".toList
  | _ => cs

/-- The timestamp a text spells. Blanks around it do not count. -/
def read? (s : String) : Option Timestamp :=
  readIso? (sixDigits (universal (Text.trimmed s.toList)))

/-! ### Writing -/

/-- A number in at least so many decimal digits. -/
def padded (width n : Nat) : List Char :=
  let digits := Nat.toDigits 10 n
  List.replicate (width - digits.length) '0' ++ digits

/-- The fraction of a second, if there is one. -/
def fraction (micro : Nat) : List Char := if micro = 0 then [] else '.' :: padded 6 micro

/-- The text of a moment counted from the start of the calendar. -/
def renderInstant (micros : Nat) : String :=
  let date := Date.ofDays (micros / day)
  let seconds := micros % day / second
  String.ofList <|
    padded 4 date.year ++ '-' :: padded 2 date.month ++ '-' :: padded 2 date.day ++
      'T' :: padded 2 (seconds / 3600) ++ ':' :: padded 2 (seconds / 60 % 60) ++
      ':' :: padded 2 (seconds % 60) ++ fraction (micros % second) ++ ['Z']

/-- The moments the calendar has dates for. -/
def moments : Nat := daysBeforeYear (maxYear + 1) * day

/-- The text of a timestamp in universal time, if the calendar has a date for it. -/
def render? (t : Timestamp) : Option String :=
  if 0 ≤ t.instant ∧ t.instant < moments then some (renderInstant t.instant.toNat) else none

/-! ### Time between timestamps -/

/-- The milliseconds from one timestamp to another, as a floating point number made
from the seconds between them. -/
def elapsed (s t : Timestamp) : Binary64 :=
  (Binary64.ofIntRatio (t.instant - s.instant) second).times 1000

/-- The milliseconds from one timestamp to another in whole numbers, a half to the
even one. -/
def elapsedMs (s t : Timestamp) : Int := ((elapsed s t).roundEven?).getD 0

end Timestamp
end TrustFramework
