import TrustFramework.Value

/-!
# Reading JSON

The reader takes what RFC 8259 allows, and the three numbers `NaN`, `Infinity`
and `-Infinity` besides. Only space, tab and the two line ends may stand around
a value, a string holds no control character as it is, and of two fields with
one name the last one counts, at the place of the first.

* `Json.read?` — the value a text spells, if it spells one.
-/

namespace TrustFramework
namespace Json

/-! ### Blanks, strings and numbers -/

/-- The blanks of JSON. -/
def isSpace (c : Char) : Bool := c = ' ' || c = '\t' || c = '\n' || c = '\r'

/-- A text from its first character on that is not blank. -/
def skipSpace (cs : List Char) : List Char := cs.dropWhile isSpace

/-- The value of a hexadecimal digit in either case. -/
def hexValue? (c : Char) : Option Nat :=
  let n := c.toNat
  if 0x30 ≤ n ∧ n ≤ 0x39 then some (n - 0x30)
  else if 0x61 ≤ n ∧ n ≤ 0x66 then some (n - 0x57)
  else if 0x41 ≤ n ∧ n ≤ 0x46 then some (n - 0x37)
  else none

/-- The number four hexadecimal digits spell. -/
def hex4? (a b c d : Char) : Option Nat := do
  let a ← hexValue? a
  let b ← hexValue? b
  let c ← hexValue? c
  let d ← hexValue? d
  pure (((a * 16 + b) * 16 + c) * 16 + d)

/-- The character of a code unit; a surrogate that stands alone is replaced. -/
def unitChar (n : Nat) : Char :=
  if 0xd800 ≤ n ∧ n ≤ 0xdfff then Char.ofNat 0xfffd else Char.ofNat n

/-- The character a pair of surrogates stands for. -/
def pairChar? (high low : Nat) : Option Char :=
  if 0xd800 ≤ high ∧ high ≤ 0xdbff ∧ 0xdc00 ≤ low ∧ low ≤ 0xdfff then
    some (Char.ofNat (0x10000 + (high - 0xd800) * 0x400 + (low - 0xdc00)))
  else none

/-- The character an escape of one letter stands for. -/
def simpleEscape? : Char → Option Char
  | '"' => some '"'
  | '\\' => some '\\'
  | '/' => some '/'
  | 'b' => some (Char.ofNat 8)
  | 'f' => some (Char.ofNat 12)
  | 'n' => some '\n'
  | 'r' => some '\r'
  | 't' => some '\t'
  | _ => none

/-- A string from behind its opening quote: its characters and what follows the
closing one. `pending` is a first surrogate that waits for its second. -/
def readString : List Char → List Char → Option Nat → Option (List Char × List Char)
  | [], _, _ => none
  | '"' :: rest, acc, pending => some ((flush acc pending).reverse, rest)
  | '\\' :: 'u' :: a :: b :: c :: d :: rest, acc, pending =>
    match hex4? a b c d with
    | none => none
    | some n =>
      match pending.bind (pairChar? · n) with
      | some joined => readString rest (joined :: acc) none
      | none => readString rest (flush acc pending) (some n)
  | '\\' :: e :: rest, acc, pending =>
    match simpleEscape? e with
    | some c => readString rest (c :: flush acc pending) none
    | none => none
  | c :: rest, acc, pending =>
    if c.toNat < 0x20 ∨ c = '\\' then none else readString rest (c :: flush acc pending) none
where
  /-- The characters read so far with the waiting code unit among them. -/
  flush (acc : List Char) : Option Nat → List Char
    | some n => unitChar n :: acc
    | none => acc

/-- The digits at the front of a text, and the rest. -/
def spanDigits (cs : List Char) : List Char × List Char := cs.span Char.isDigit

/-- The whole part of a number: a zero, or digits that do not start with one. -/
def readWhole? : List Char → Option (List Char × List Char)
  | '0' :: rest => some (['0'], rest)
  | cs =>
    match spanDigits cs with
    | ([], _) => none
    | (digits, rest) => some (digits, rest)

/-- A fraction: a point with at least one digit behind it. -/
def readFraction : List Char → List Char × List Char
  | '.' :: rest =>
    match spanDigits rest with
    | ([], _) => ([], '.' :: rest)
    | (digits, rest) => (digits, rest)
  | cs => ([], cs)

/-- An exponent: the letter, an optional sign, and at least one digit. -/
def readExponent? (cs : List Char) : Option (Int × List Char) :=
  match cs with
  | e :: rest =>
    if e = 'e' ∨ e = 'E' then
      let (negative, rest) := match rest with
        | '-' :: rest => (true, rest)
        | '+' :: rest => (false, rest)
        | rest => (false, rest)
      match spanDigits rest with
      | ([], _) => none
      | (digits, rest) =>
        let n : Int := Text.digitsValue digits
        some (if negative then -n else n, rest)
    else none
  | [] => none

/-- A number without its sign: whole when it has neither fraction nor exponent. -/
def readNumber? (negative : Bool) (cs : List Char) : Option (Value × List Char) := do
  let (whole, rest) ← readWhole? cs
  let (fraction, rest) := readFraction rest
  let exponent := readExponent? rest
  if fraction.isEmpty && exponent.isNone then
    let n : Int := Text.digitsValue whole
    pure (.int (if negative then -n else n), rest)
  else
    let (e, rest) := exponent.getD (0, rest)
    let digits := Text.digitsValue (whole ++ fraction)
    pure (.real (Binary64.ofDecimal negative digits (e - fraction.length)), rest)

/-- A value behind a keyword. -/
def readWord? (word : String) (v : Value) (cs : List Char) : Option (Value × List Char) :=
  if word.toList.isPrefixOf cs then some (v, cs.drop word.length) else none

/-! ### Values -/

mutual
/-- A value at the front of a text, and the rest. Every call takes a character,
so as much fuel as there are characters is enough. -/
def readValue : Nat → List Char → Option (Value × List Char)
  | 0, _ => none
  | fuel + 1, cs =>
    match cs with
    | '"' :: rest => (readString rest [] none).map fun (s, rest) => (.text (String.ofList s), rest)
    | '[' :: rest =>
      match skipSpace rest with
      | ']' :: rest => some (.list [], rest)
      | rest => readItems fuel rest []
    | '\x7b' :: rest =>
      match skipSpace rest with
      | '\x7d' :: rest => some (.object [], rest)
      | rest => readFields fuel rest []
    | 'n' :: _ => readWord? "null" .null cs
    | 't' :: _ => readWord? "true" (.bool true) cs
    | 'f' :: _ => readWord? "false" (.bool false) cs
    | 'N' :: _ => readWord? "NaN" (.real .nan) cs
    | 'I' :: _ => readWord? "Infinity" (.real (.infinite false)) cs
    | '-' :: 'I' :: _ => readWord? "-Infinity" (.real (.infinite true)) cs
    | '-' :: rest => readNumber? true rest
    | _ => readNumber? false cs

/-- The items of a list up to its closing bracket, behind those in `acc`. -/
def readItems : Nat → List Char → List Value → Option (Value × List Char)
  | 0, _, _ => none
  | fuel + 1, cs, acc => do
    let (v, rest) ← readValue fuel cs
    match skipSpace rest with
    | ',' :: rest => readItems fuel (skipSpace rest) (v :: acc)
    | ']' :: rest => some (.list (v :: acc).reverse, rest)
    | _ => none

/-- The fields of an object up to its closing brace, behind those in `acc`. -/
def readFields : Nat → List Char → List (String × Value) → Option (Value × List Char)
  | 0, _, _ => none
  | fuel + 1, cs, acc =>
    match cs with
    | '"' :: rest => do
      let (name, rest) ← readString rest [] none
      match skipSpace rest with
      | ':' :: rest =>
        let (v, rest) ← readValue fuel (skipSpace rest)
        let acc := (String.ofList name, v) :: acc
        match skipSpace rest with
        | ',' :: rest => readFields fuel (skipSpace rest) acc
        | '\x7d' :: rest => some (.object (Fields.ofPairs acc.reverse), rest)
        | _ => none
      | _ => none
    | _ => none
end

/-- The value a text spells, if it spells one and nothing else. -/
def read? (s : String) : Option Value :=
  let cs := s.toList
  match readValue (cs.length + 1) (skipSpace cs) with
  | some (v, rest) => if (skipSpace rest).isEmpty then some v else none
  | none => none

end Json
end TrustFramework
