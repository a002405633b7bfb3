import TrustFramework.Value

/-!
# Writing JSON

Two layouts: one line without blanks, and a page with the names of every object
in order, two spaces of indentation for each level, and every character beyond
ASCII escaped. The numbers that JSON has no spelling for are written `NaN`,
`Infinity` and `-Infinity`.

* `Json.compact` — one line.
* `Json.page` — the indented layout, sorted and ASCII only.
-/

namespace TrustFramework
namespace Json

/-! ### Characters -/

/-- Four hexadecimal digits after `\u`. -/
def unit (n : Nat) : List Char := '\\' :: 'u' :: Text.hex 4 n []

/-- A character that does not stand for itself in a JSON string. -/
def escaped? (c : Char) : Option (List Char) :=
  if c = '"' then some ['\\', '"']
  else if c = '\\' then some ['\\', '\\']
  else if c = '\n' then some ['\\', 'n']
  else if c = '\r' then some ['\\', 'r']
  else if c = '\t' then some ['\\', 't']
  else if c.toNat = 8 then some ['\\', 'b']
  else if c.toNat = 12 then some ['\\', 'f']
  else if c.toNat < 0x20 then some (unit c.toNat)
  else none

/-- A character in ASCII: beyond the basic plane as a pair of surrogates. -/
def asciiChar (c : Char) : List Char :=
  let n := c.toNat
  match escaped? c with
  | some cs => cs
  | none =>
    if n < 0x7f then [c]
    else if n < 0x10000 then unit n
    else unit (0xd800 + (n - 0x10000) / 0x400) ++ unit (0xdc00 + (n - 0x10000) % 0x400)

/-- A JSON string with every character beyond ASCII escaped. -/
def asciiString (s : String) : String :=
  String.ofList ('"' :: (s.toList.flatMap asciiChar ++ ['"']))

/-- A JSON string with every character beyond ASCII as it is. -/
def plainString (s : String) : String :=
  String.ofList ('"' :: (s.toList.flatMap (fun c => (escaped? c).getD [c]) ++ ['"']))

/-- A floating point number. -/
def number : Binary64 → String
  | .nan => "NaN"
  | .infinite negative => if negative then "-Infinity" else "Infinity"
  | x => x.toText

/-! ### One line -/

mutual
/-- A value on one line, in pieces from the left. -/
def compactPieces : Value → List String
  | .null => ["null"]
  | .bool b => [if b then "true" else "false"]
  | .int n => [toString n]
  | .real x => [number x]
  | .text s => [plainString s]
  | .list items => "[" :: compactItems items
  | .object fields => "\x7b" :: compactFields fields

/-- The items of a list and its closing bracket. -/
def compactItems : List Value → List String
  | [] => ["]"]
  | [v] => compactPieces v ++ ["]"]
  | v :: rest => compactPieces v ++ "," :: compactItems rest

/-- The fields of an object and its closing brace. -/
def compactFields : List (String × Value) → List String
  | [] => ["\x7d"]
  | [(n, v)] => plainString n :: ":" :: (compactPieces v ++ ["\x7d"])
  | (n, v) :: rest => plainString n :: ":" :: (compactPieces v ++ "," :: compactFields rest)
end

/-- A value on one line. -/
def compact (v : Value) : String := String.join (compactPieces v)

/-! ### A page -/

/-- Fields in the order of their names. -/
def sortedFields {α : Type} (fields : List (String × α)) : List (String × α) :=
  fields.mergeSort fun a b => a.1 ≤ b.1

mutual
/-- A value with the fields of every object in order. -/
def sorted : Value → Value
  | .list items => .list (sortedItems items)
  | .object fields => .object (sortedFields (sortedEntries fields))
  | v => v

/-- The items of a list, each sorted. -/
def sortedItems : List Value → List Value
  | [] => []
  | v :: rest => sorted v :: sortedItems rest

/-- The fields of an object, each value sorted. -/
def sortedEntries : List (String × Value) → List (String × Value)
  | [] => []
  | (n, v) :: rest => (n, sorted v) :: sortedEntries rest
end

/-- A line break and the indentation of a level. -/
def lineBreak (level : Nat) : String :=
  String.ofList ('\n' :: List.replicate (2 * level) ' ')

mutual
/-- A value laid out at a level, in pieces from the left. -/
def pagePieces (level : Nat) : Value → List String
  | .null => ["null"]
  | .bool b => [if b then "true" else "false"]
  | .int n => [toString n]
  | .real x => [number x]
  | .text s => [asciiString s]
  | .list [] => ["[]"]
  | .list items => "[" :: (pageItems (level + 1) items ++ [lineBreak level, "]"])
  | .object [] => ["\x7b\x7d"]
  | .object fields => "\x7b" :: (pageFields (level + 1) fields ++ [lineBreak level, "\x7d"])

/-- The items of a list, each on a line of its own. -/
def pageItems (level : Nat) : List Value → List String
  | [] => []
  | [v] => lineBreak level :: pagePieces level v
  | v :: rest => lineBreak level :: (pagePieces level v ++ "," :: pageItems level rest)

/-- The fields of an object, each on a line of its own. -/
def pageFields (level : Nat) : List (String × Value) → List String
  | [] => []
  | [(n, v)] => lineBreak level :: asciiString n :: ": " :: pagePieces level v
  | (n, v) :: rest =>
    lineBreak level :: asciiString n :: ": " ::
      (pagePieces level v ++ "," :: pageFields level rest)
end

/-- A value as an indented page with a final line break. -/
def page (v : Value) : String := String.join (pagePieces 0 (sorted v)) ++ "\n"

end Json
end TrustFramework
