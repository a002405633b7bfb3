import TrustFramework.Yaml.Token
import TrustFramework.Json.Reader

/-!
# Scalars

The text of a scalar may go over several lines. How lines join depends on how the
scalar is written: in quotes, plain, or as a block of lines.

* `readQuoted` — a scalar in quotes.
* `readPlain` — a plain scalar.
* `readBlock` — a block of lines.
-/

namespace TrustFramework
namespace Yaml

/-- The characters that join two lines, given the line end between them and those of
the empty lines behind it: one line end is a space, of several the first one is not
counted. -/
def joint (first : Char) (others : List Char) : List Char :=
  if first = '\n' then (if others.isEmpty then [' '] else others) else first :: others

/-! ### Quotes -/

/-- The line ends of empty lines, from the start of a line on, and the rest of the first
line that is not empty. No line may start with the mark of a document. -/
def readEmptyLines : Nat → List Char → Except Defect (List Char × List Char)
  | 0, cs => .ok ([], cs)
  | fuel + 1, cs =>
    if startsDocumentMark cs then .error .malformed
    else match cs.dropWhile isSpaceOrTab with
      | [] => .ok ([], [])
      | c :: rest =>
        if isBreak c then do
          let (breaks, rest) ← readEmptyLines fuel rest
          pure (settledBreak c :: breaks, rest)
        else .ok ([], c :: rest)

/-- The character an escape of one letter stands for. -/
def simpleEscape? (c : Char) : Option Char :=
  (([('0', 0), ('a', 7), ('b', 8), ('t', 9), ('\t', 9), ('n', 10), ('v', 11), ('f', 12),
      ('r', 13), ('e', 0x1b), (' ', 0x20), ('"', 0x22), ('/', 0x2f), ('\\', 0x5c),
      ('N', 0x85), ('_', 0xa0), ('L', 0x2028), ('P', 0x2029)] : List (Char × Nat)).lookup
    c).map Char.ofNat

/-- How many hexadecimal digits belong to an escape. -/
def escapeLength? : Char → Option Nat
  | 'x' => some 2
  | 'u' => some 4
  | 'U' => some 8
  | _ => none

/-- The number hexadecimal digits spell. -/
def hexNumber? (cs : List Char) : Option Nat :=
  cs.foldlM (fun n c => (Json.hexValue? c).map (n * 16 + ·)) 0

/-- What an escape stands for, from behind the backslash, and the rest. -/
def readEscape (cs : List Char) : Except Defect (List Char × List Char) :=
  match cs with
  | [] => .error .malformed
  | c :: rest =>
    match simpleEscape? c, escapeLength? c with
    | some d, _ => .ok ([d], rest)
    | none, some length =>
      match hexNumber? (rest.take length) with
      | some n =>
        if rest.length < length then .error .malformed
        else if 0x110000 ≤ n then .error .outOfRange
        else .ok ([Json.unitChar n], rest.drop length)
      | none => .error .malformed
    | none, none => if isBreak c then readEmptyLines rest.length rest else .error .malformed

/-- A scalar from behind its opening quote: its text, and what follows the closing one.
The characters read so far are in `acc`, the last one first. A quote doubles in single
quotes, and a backslash escapes in double ones. -/
def readQuotedFrom (double : Bool) : Nat → List Char → List Char →
    Except Defect (String × List Char)
  | 0, _, _ => .error .malformed
  | _ + 1, _, [] => .error .malformed
  | fuel + 1, acc, c :: rest =>
    if double && c = '\\' then do
      let (found, rest) ← readEscape rest
      readQuotedFrom double fuel (found.reverse ++ acc) rest
    else if double && c = '"' then .ok (String.ofList acc.reverse, rest)
    else if !double && c = '\'' then
      match rest with
      | '\'' :: rest => readQuotedFrom double fuel ('\'' :: acc) rest
      | _ => .ok (String.ofList acc.reverse, rest)
    else if isSpaceOrTab c || isBreak c then
      let (blanks, rest) := (c :: rest).span isSpaceOrTab
      match rest with
      | [] => .error .malformed
      | d :: rest =>
        if isBreak d then do
          let (others, rest) ← readEmptyLines (rest.length + 1) rest
          readQuotedFrom double fuel ((joint (settledBreak d) others).reverse ++ acc) rest
        else readQuotedFrom double fuel (blanks.reverse ++ acc) (d :: rest)
    else readQuotedFrom double fuel (c :: acc) rest

/-- A scalar in quotes, from behind the opening one, and the rest. -/
def readQuoted (double : Bool) (cs : List Char) : Except Defect (String × List Char) :=
  readQuotedFrom double (cs.length + 1) [] cs

/-! ### Plain scalars -/

/-- Whether a plain scalar ends at the first character of a text, within a line. -/
def endsPlain (inFlow : Bool) : List Char → Bool
  | [] => true
  | ':' :: rest =>
    atBlank rest || (inFlow && (rest.head?.any fun c => ",[]\x7b\x7d".toList.contains c))
  | c :: _ =>
    isSpaceOrTab c || isBreak c || (inFlow && ",?[]\x7b\x7d".toList.contains c)

/-- The piece of a plain scalar at the front of a text, and the rest. -/
def plainPiece (inFlow : Bool) : List Char → List Char × List Char
  | [] => ([], [])
  | c :: rest =>
    if endsPlain inFlow (c :: rest) then ([], c :: rest)
    else
      let (piece, rest) := plainPiece inFlow rest
      (c :: piece, rest)

/-- What stands between two pieces of a plain scalar. -/
structure PlainGap where
  /-- The characters that join the pieces; none if the scalar ends at the gap. -/
  joint : List Char
  /-- Whether the gap goes over the end of a line. -/
  newLine : Bool
  /-- How many spaces the piece behind the gap is indented, if it is in a new line. -/
  column : Nat
  rest : List Char

/-- The empty lines behind a line end and the indentation of the line that follows them:
the line ends, the spaces of the indentation, and the rest. Nothing is behind a line end
that is followed by the mark of a document. -/
def plainLines : Nat → List Char → Option (List Char) × Nat × List Char
  | 0, cs => (some [], 0, cs)
  | fuel + 1, cs =>
    if startsDocumentMark cs then (none, 0, cs)
    else
      let (spaces, rest) := cs.span (· = ' ')
      match rest with
      | [] => (some [], spaces.length, [])
      | c :: after =>
        if isBreak c then
          let (breaks, column, rest) := plainLines fuel after
          (breaks.map (settledBreak c :: ·), column, rest)
        else (some [], spaces.length, c :: after)

/-- What stands at the end of a piece of a plain scalar. -/
def plainGap (cs : List Char) : PlainGap :=
  let (spaces, rest) := cs.span (· = ' ')
  match rest with
  | [] => ⟨spaces, false, 0, []⟩
  | c :: after =>
    if isBreak c then
      match plainLines (after.length + 1) after with
      | (some breaks, column, rest) => ⟨joint (settledBreak c) breaks, true, column, rest⟩
      | (none, column, rest) => ⟨[], true, column, rest⟩
    else ⟨spaces, false, 0, c :: after⟩

/-- A plain scalar that was read. -/
structure PlainScalar where
  text : String
  /-- Whether what follows stands at the start of a line. -/
  newLine : Bool
  rest : List Char

/-- A plain scalar behind the characters in `acc`, the last one first. Its lines are
indented by `indent` at least, unless it stands in brackets or braces. A comment ends it. -/
def readPlainFrom (inFlow : Bool) (indent : Nat) : Nat → List Char → Bool → List Char →
    List Char → PlainScalar
  | 0, acc, newLine, _, cs => ⟨String.ofList acc.reverse, newLine, cs⟩
  | fuel + 1, acc, newLine, gap, cs =>
    if cs.head? = some '#' then ⟨String.ofList acc.reverse, newLine, cs⟩
    else
      match plainPiece inFlow cs with
      | ([], _) => ⟨String.ofList acc.reverse, newLine, cs⟩
      | (piece, rest) =>
        let acc := piece.reverse ++ gap.reverse ++ acc
        let next := plainGap rest
        if next.joint.isEmpty || (!inFlow && next.newLine && next.column < indent) then
          ⟨String.ofList acc.reverse, next.newLine, next.rest⟩
        else readPlainFrom inFlow indent fuel acc next.newLine next.joint next.rest

/-- A plain scalar at the front of a text. -/
def readPlain (inFlow : Bool) (indent : Nat) (cs : List Char) : PlainScalar :=
  readPlainFrom inFlow indent (cs.length + 1) [] false [] cs

/-! ### Blocks of lines -/

/-- What happens to the line ends behind the last line of a block. -/
inductive Chomping where
  /-- One is kept. -/
  | clip
  /-- None is kept. -/
  | strip
  /-- All are kept. -/
  | keep
  deriving DecidableEq, Repr

/-- What stands behind the mark of a block. -/
structure BlockHeader where
  chomping : Chomping := .clip
  /-- By how much the lines are indented, if it is told. -/
  increment : Option Nat := none

/-- How a sign chomps. -/
def chomping? : Char → Option Chomping
  | '+' => some .keep
  | '-' => some .strip
  | _ => none

/-- The digits that tell an indentation. -/
def increment? (c : Char) : Option Nat := if c.isDigit then some (c.toNat - 0x30) else none

/-- A sign and a digit in either order, each of which may be missing, and the rest. -/
def blockHeader : List Char → BlockHeader × List Char
  | [] => ({}, [])
  | c :: rest =>
    match chomping? c, increment? c with
    | some sign, _ =>
      match rest.head?.bind increment? with
      | some n => (⟨sign, some n⟩, rest.drop 1)
      | none => (⟨sign, none⟩, rest)
    | none, some n =>
      match rest.head?.bind chomping? with
      | some sign => (⟨sign, some n⟩, rest.drop 1)
      | none => (⟨.clip, some n⟩, rest)
    | none, none => ({}, c :: rest)

/-- The rest of a line that holds nothing but a comment, and the line end. -/
def skipComment (cs : List Char) : Except Defect (List Char) :=
  let cs := cs.dropWhile (· = ' ')
  let cs := if cs.head? = some '#' then cs.dropWhile (!isBreak ·) else cs
  match cs with
  | [] => .ok []
  | c :: rest => if isBreak c then .ok rest else .error .malformed

/-- The empty lines at the front of a block: their line ends, the greatest number of
spaces among them and the line that follows, how many that line has, and the rest. -/
def leadingLines : List Char → Nat → Nat → List Char × Nat × Nat × List Char
  | [], column, greatest => ([], greatest, column, [])
  | c :: rest, column, greatest =>
    if c = ' ' then leadingLines rest (column + 1) (max greatest (column + 1))
    else if isBreak c then
      let (breaks, found) := leadingLines rest 0 greatest
      (settledBreak c :: breaks, found)
    else ([], greatest, column, c :: rest)

/-- The empty lines of a block whose lines are indented by `indent`: their line ends, the
number of spaces before the first character behind them, and the rest. -/
def emptyLines (indent : Nat) : List Char → Nat → List Char × Nat × List Char
  | [], column => ([], column, [])
  | c :: rest, column =>
    if c = ' ' ∧ column < indent then emptyLines indent rest (column + 1)
    else if isBreak c then
      let (breaks, found) := emptyLines indent rest 0
      (settledBreak c :: breaks, found)
    else ([], column, c :: rest)

/-- Whether a text starts with a space or a tab. -/
def startsBlank (cs : List Char) : Bool := cs.head?.any isSpaceOrTab

/-- The lines of a block. The line at the front stands behind `breaks`, at the column of
the block; `acc` holds what was read before, the last character first. In a folded block
two lines join like those of a plain scalar if neither starts with a blank. -/
def readLines (folded : Bool) (indent : Nat) (chomping : Chomping) : Nat → List Char →
    List Char → List Char → String × List Char
  | 0, acc, _, cs => (String.ofList acc.reverse, cs)
  | fuel + 1, acc, breaks, cs =>
    let (line, rest) := cs.span (!isBreak ·)
    let acc := line.reverse ++ breaks.reverse ++ acc
    let lineEnd := (rest.head?.map settledBreak).toList
    let (breaks, column, after) := emptyLines indent (rest.drop 1) 0
    if column = indent ∧ !after.isEmpty then
      let folds := folded && lineEnd = ['\n'] && !startsBlank cs && !startsBlank after
      let between := if folds then (if breaks.isEmpty then [' '] else []) else lineEnd
      readLines folded indent chomping fuel (between.reverse ++ acc) breaks after
    else
      let tail := match chomping with
        | .clip => lineEnd
        | .strip => []
        | .keep => lineEnd ++ breaks
      (String.ofList (acc.reverse ++ tail), after)

/-- A block of lines from behind its mark, within a collection whose column is one less
than `least`, and the rest from the first character on that is not part of it. -/
def readBlock (folded : Bool) (least : Nat) (cs : List Char) :
    Except Defect (String × List Char) := do
  let (header, rest) := blockHeader cs
  if header.increment = some 0 || !atGap rest then throw .malformed
  let rest ← skipComment rest
  let least := max least 1
  let (breaks, indent, column, rest) := match header.increment with
    | none =>
      let (breaks, greatest, column, rest) := leadingLines rest 0 0
      (breaks, max least greatest, column, rest)
    | some n =>
      let indent := least + n - 1
      let (breaks, column, rest) := emptyLines indent rest 0
      (breaks, indent, column, rest)
  if column = indent && !rest.isEmpty then
    pure (readLines folded indent header.chomping (rest.length + 1) [] breaks rest)
  else
    pure (if header.chomping = .keep then String.ofList breaks else "", rest)

end Yaml
end TrustFramework
