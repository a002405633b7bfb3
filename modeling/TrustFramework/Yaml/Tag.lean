import TrustFramework.Yaml.Token
import TrustFramework.Json.Reader

/-!
# Tags and directives

A tag names the kind of the node behind it. It is written in full, or as a handle and
the rest; a handle stands for the first part of a name, which a directive can tell.

* `readTag` — a tag.
* `readDirective` — the line of a directive.
* `Kind` — the kinds of nodes; `Kind.ofName` — the kind of a name.
-/

namespace TrustFramework
namespace Yaml

/-! ### Tags -/

/-- The characters besides letters and digits that a tag may hold. -/
def tagMarks : List Char := "-;/?:@&=+$,_.!~*'()[]".toList

/-- Whether a tag may hold a character as it is. -/
def isTagChar (c : Char) : Bool := c.isAlphanum || tagMarks.contains c

/-- The bytes that a run of percent signs spells, each with two hexadecimal digits. -/
def readBytes : List Char → Except Defect (List UInt8 × List Char)
  | '%' :: a :: b :: rest => do
    let some n := Json.hexValue? a | throw .malformed
    let some m := Json.hexValue? b | throw .malformed
    let (bytes, rest) ← readBytes rest
    pure (UInt8.ofNat (n * 16 + m) :: bytes, rest)
  | '%' :: _ => .error .malformed
  | cs => .ok ([], cs)

/-- The text of a tag at the front of a text, and the rest. -/
def readTagTextFrom : Nat → List Char → Except Defect (List Char × List Char)
  | 0, cs => .ok ([], cs)
  | fuel + 1, cs => do
    match cs with
    | [] => pure ([], [])
    | '%' :: _ =>
      let (bytes, rest) ← readBytes cs
      let some s := String.fromUTF8? (ByteArray.mk bytes.toArray) | throw .malformed
      let (text, rest) ← readTagTextFrom fuel rest
      pure (s.toList ++ text, rest)
    | c :: rest =>
      if isTagChar c then
        let (text, rest) ← readTagTextFrom fuel rest
        pure (c :: text, rest)
      else pure ([], c :: rest)

/-- The text of a tag, which is not empty, and the rest. -/
def readTagText (cs : List Char) : Except Defect (String × List Char) := do
  let (text, rest) ← readTagTextFrom (cs.length + 1) cs
  if text.isEmpty then throw .malformed
  pure (String.ofList text, rest)

/-- A handle: an exclamation mark, or a name between two of them. -/
def readHandle : List Char → Except Defect (String × List Char)
  | '!' :: rest =>
    match rest.span isNameChar with
    | (name, '!' :: after) => .ok ("!" ++ String.ofList name ++ "!", after)
    | (_, _) => if rest.head? = some ' ' then .ok ("!", rest) else .error .malformed
  | _ => .error .malformed

/-- A tag from behind its exclamation mark, as a token, and the rest. -/
def readTag (cs : List Char) : Except Defect (Token × List Char) := do
  let (tag, rest) ←
    match cs with
    | '<' :: rest =>
      match ← readTagText rest with
      | (text, '>' :: rest) => pure (Token.tag none text, rest)
      | _ => throw .malformed
    | cs =>
      if atBlank cs then pure (Token.tag none "!", cs)
      else if (cs.takeWhile fun c => !(c = ' ' || isBreak c)).contains '!' then do
        let (handle, rest) ← readHandle ('!' :: cs)
        let (text, rest) ← readTagText rest
        pure (Token.tag (some handle) text, rest)
      else do
        let (text, rest) ← readTagText cs
        pure (Token.tag (some "!") text, rest)
  if atGap rest then pure (tag, rest) else throw .malformed

/-! ### Directives -/

/-- A number, and the rest. -/
def readNumber (cs : List Char) : Except Defect (Nat × List Char) :=
  match cs.span Char.isDigit with
  | ([], _) => .error .malformed
  | (digits, rest) => .ok (Text.digitsValue digits, rest)

/-- A version of the format: two numbers with a point between them. -/
def readVersion (cs : List Char) : Except Defect (Directive × List Char) := do
  match ← readNumber (cs.dropWhile (· = ' ')) with
  | (major, '.' :: rest) =>
    let (minor, rest) ← readNumber rest
    if atGap rest then pure (.version major minor, rest) else throw .malformed
  | _ => throw .malformed

/-- A handle, and what it stands for. -/
def readHandleMeaning (cs : List Char) : Except Defect (Directive × List Char) := do
  let (name, rest) ← readHandle (cs.dropWhile (· = ' '))
  if rest.head? ≠ some ' ' then throw .malformed
  let (stands, rest) ← readTagText (rest.dropWhile (· = ' '))
  if atGap rest then pure (.handle name stands, rest) else throw .malformed

/-- A directive from behind its percent sign, and the rest of its line. -/
def readDirective (cs : List Char) : Except Defect (Directive × List Char) := do
  let (name, rest) := cs.span isNameChar
  if name.isEmpty || !atGap rest then throw .malformed
  match String.ofList name with
  | "YAML" => readVersion rest
  | "TAG" => readHandleMeaning rest
  | _ => pure (.other, rest.dropWhile (!isBreak ·))

/-! ### Kinds -/

/-- The kinds of nodes. -/
inductive Kind where
  | null
  | bool
  | int
  | real
  | text
  | date
  | binary
  /-- The key whose value is merged into its mapping. -/
  | merge
  /-- The key of the value that stands for its mapping. -/
  | standIn
  | list
  | mapping
  | set
  /-- A list of mappings of one entry each, taken for a list of pairs. -/
  | pairs
  /-- Anything else, of which nothing can be made. -/
  | unknown
  deriving DecidableEq, Repr

/-- What the standard kinds are named behind. -/
def standardPrefix : String := "tag:yaml.org,2002:"

/-- The names of the standard kinds. -/
def Kind.names : List (String × Kind) :=
  [("null", null), ("bool", bool), ("int", int), ("float", real), ("str", text),
    ("timestamp", date), ("binary", binary), ("merge", merge), ("value", standIn),
    ("seq", list), ("map", mapping), ("set", set), ("omap", pairs), ("pairs", pairs)]

/-- The kind of a full name. -/
def Kind.ofName (name : String) : Kind :=
  (names.find? fun (short, _) => standardPrefix ++ short = name).elim unknown Prod.snd

end Yaml
end TrustFramework
