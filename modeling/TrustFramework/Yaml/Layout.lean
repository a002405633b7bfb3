import TrustFramework.Yaml.Scalar
import TrustFramework.Yaml.Tag

/-!
# Layout

A text is cut into tokens from the left. A line that is indented further than the
collections around it can begin a collection, and a line that is indented less ends
some. Whether a node is a key shows only at the colon behind it, so the place before it
is remembered until then; the two must stand in one line.

* `Place` — a place in a text.
* `Layout` — what was read of a text.
* `Layout.step` — the next token.
* `tokensOf` — the tokens of a text.
-/

namespace TrustFramework
namespace Yaml

/-- A place in a text: how many characters, and how many lines, are before it, and how
many characters of its line. -/
structure Place where
  index : Nat := 0
  line : Nat := 0
  column : Nat := 0
  deriving DecidableEq, Repr

/-- The mark that may stand at the front of a text, and takes no column. -/
def isOrderMark (c : Char) : Bool := c.toNat = 0xfeff

/-- The place behind a character. -/
def Place.next (p : Place) (c : Char) : Place :=
  if isBreak c then ⟨p.index + 1, p.line + 1, 0⟩
  else ⟨p.index + 1, p.line, if isOrderMark c then p.column else p.column + 1⟩

/-- A place before a node that may turn out to be a key. -/
structure Candidate where
  /-- How many tokens are before the node. -/
  position : Nat
  place : Place
  /-- Whether the node can only be a key, as it stands where the keys of its mapping do. -/
  required : Bool
  deriving DecidableEq, Repr

/-- How far a key may be from its colon. -/
def keyReach : Nat := 1024

/-- Whether a candidate is in the line of a place, and not too far before it. -/
def Candidate.reaches (c : Candidate) (p : Place) : Bool :=
  c.place.line = p.line && p.index - c.place.index ≤ keyReach

/-- What was read of a text. -/
structure Layout where
  rest : List Char
  place : Place := {}
  /-- The tokens, the last one first. -/
  tokens : List Token := []
  /-- The columns of the block collections that are open, the innermost first. -/
  columns : List Nat := []
  /-- The candidate for a key in the innermost brackets, or in none. -/
  candidate : Option Candidate := none
  /-- The candidates outside of the brackets that are open, the innermost first. -/
  outer : List (Option Candidate) := []
  /-- Whether a key may begin here. -/
  keyAllowed : Bool := true

namespace Layout

/-- Whether brackets or braces are open. Within them nothing is told by indentation. -/
def inFlow (l : Layout) : Bool := !l.outer.isEmpty

/-- The least column at which a line still belongs to a scalar. -/
def leastColumn (l : Layout) : Nat := (l.columns.head?.map (· + 1)).getD 0

/-- Goes on with a later part of the text. -/
def goTo (l : Layout) (rest : List Char) : Layout :=
  { l with
    rest
    place := (l.rest.take (l.rest.length - rest.length)).foldl Place.next l.place }

/-- One token more. -/
def emit (l : Layout) (t : Token) : Layout := { l with tokens := t :: l.tokens }

/-- Tokens before those behind a position. -/
def insert (l : Layout) (position : Nat) (ts : List Token) : Layout :=
  let (after, before) := l.tokens.splitAt (l.tokens.length - position)
  { l with tokens := after ++ ts.reverse ++ before }

/-! ### Indentation -/

/-- Ends the block collections that stand further to the right than a column; all of
them if there is no column. -/
def closeBlocks (l : Layout) (column : Option Nat) : Layout :=
  if l.inFlow then l
  else
    let (closed, columns) := l.columns.span fun c => column.all (· < c)
    { l with columns, tokens := List.replicate closed.length .blockClose ++ l.tokens }

/-- Whether a collection at a column would stand further to the right than all others. -/
def isDeeper (l : Layout) (column : Nat) : Bool := l.columns.head?.all (· < column)

/-- Opens a block collection here, unless this place belongs to one already. -/
def openBlock (l : Layout) (t : Token) : Layout :=
  if !l.inFlow && l.isDeeper l.place.column then
    { l with columns := l.place.column :: l.columns, tokens := t :: l.tokens }
  else l

/-! ### Candidates for keys -/

/-- Forgets the candidate; one that had to be a key is a defect. -/
def dropCandidate (l : Layout) : Except Defect Layout :=
  if l.candidate.any Candidate.required then .error .malformed
  else .ok { l with candidate := none }

/-- The candidate, unless it is out of reach; then one that had to be a key is a
defect. -/
def freshCandidate (p : Place) : Option Candidate → Except Defect (Option Candidate)
  | none => .ok none
  | some c =>
    if c.reaches p then .ok (some c)
    else if c.required then .error .malformed
    else .ok none

/-- Forgets all candidates that are out of reach. -/
def dropStale (l : Layout) : Except Defect Layout := do
  let candidate ← freshCandidate l.place l.candidate
  let outer ← l.outer.mapM (freshCandidate l.place)
  pure { l with candidate, outer }

/-- Takes this place for a candidate, where keys are allowed. -/
def noteCandidate (l : Layout) : Except Defect Layout :=
  if l.keyAllowed then do
    let l ← l.dropCandidate
    let required := !l.inFlow && l.columns.head? = some l.place.column
    pure { l with candidate := some ⟨l.tokens.length, l.place, required⟩ }
  else .ok l

/-! ### Tokens -/

/-- The text without spaces, comments and line ends at its front. A new line allows a
key, except in brackets. -/
def skipGaps : Nat → Layout → Layout
  | 0, l => l
  | fuel + 1, l =>
    let cs := l.rest.dropWhile (· = ' ')
    let cs := if cs.head? = some '#' then cs.dropWhile (!isBreak ·) else cs
    match cs with
    | [] => l.goTo []
    | c :: rest =>
      if isBreak c then
        skipGaps fuel { l.goTo rest with keyAllowed := l.keyAllowed || !l.inFlow }
      else l.goTo (c :: rest)

/-- Stands before the next token. -/
def advance (l : Layout) : Except Defect Layout := do
  let l := if l.place.index = 0 ∧ l.rest.head?.any isOrderMark then l.goTo (l.rest.drop 1) else l
  let l ← (skipGaps (l.rest.length + 1) l).dropStale
  pure (l.closeBlocks (some l.place.column))

/-- A mark of a single character. -/
def mark (l : Layout) (t : Token) : Layout := (l.emit t).goTo (l.rest.drop 1)

/-- The mark that begins or ends a document. It ends everything that is open. -/
def documentMark (l : Layout) (t : Token) : Except Defect Layout := do
  let l ← (l.closeBlocks none).dropCandidate
  pure { (l.emit t).goTo (l.rest.drop 3) with keyAllowed := false }

/-- A directive, with the rest of its line. -/
def directive (l : Layout) : Except Defect Layout := do
  let l ← (l.closeBlocks none).dropCandidate
  let (d, rest) ← readDirective (l.rest.drop 1)
  let rest ← skipComment rest
  pure { (l.emit (.directive d)).goTo rest with keyAllowed := false }

/-- An opening bracket or brace. -/
def openFlow (l : Layout) (t : Token) : Except Defect Layout := do
  let l ← l.noteCandidate
  pure { l.mark t with keyAllowed := true, candidate := none, outer := l.candidate :: l.outer }

/-- A closing bracket or brace. -/
def closeFlow (l : Layout) (t : Token) : Except Defect Layout := do
  let l ← l.dropCandidate
  match l.outer with
  | [] => throw .malformed
  | candidate :: outer => pure { l.mark t with keyAllowed := false, candidate, outer }

/-- A comma. -/
def comma (l : Layout) : Except Defect Layout := do
  let l ← l.dropCandidate
  pure { l.mark .comma with keyAllowed := true }

/-- The hyphen before an item. -/
def entry (l : Layout) : Except Defect Layout := do
  if !l.inFlow && !l.keyAllowed then throw .malformed
  let l ← (l.openBlock .sequenceOpen).dropCandidate
  pure { l.mark .entry with keyAllowed := true }

/-- The question mark before a key. -/
def explicitKey (l : Layout) : Except Defect Layout := do
  if !l.inFlow && !l.keyAllowed then throw .malformed
  let l ← (l.openBlock .mappingOpen).dropCandidate
  pure { l.mark .key with keyAllowed := !l.inFlow }

/-- The colon before a value. What stands at the candidate becomes its key, and can
begin a mapping. -/
def value (l : Layout) : Except Defect Layout := do
  match l.candidate with
  | some c =>
    let opens := !l.inFlow && l.isDeeper c.place.column
    let l := l.insert c.position (if opens then [.mappingOpen, .key] else [.key])
    let columns := if opens then c.place.column :: l.columns else l.columns
    pure { l.mark .value with keyAllowed := false, candidate := none, columns }
  | none =>
    if !l.inFlow && !l.keyAllowed then throw .malformed
    let l := l.openBlock .mappingOpen
    pure { l.mark .value with keyAllowed := !l.inFlow }

/-- The name of an anchor behind its mark. -/
def name (l : Layout) (t : String → Token) : Except Defect Layout := do
  let l ← l.noteCandidate
  let (name, rest) := (l.rest.drop 1).span isNameChar
  let ends := rest.head?.all fun c =>
    isSpaceOrTab c || isBreak c || "?:,]\x7d%@\x60".toList.contains c
  if name.isEmpty || !ends then throw .malformed
  pure { (l.emit (t (String.ofList name))).goTo rest with keyAllowed := false }

/-- The tag of a node. -/
def tag (l : Layout) : Except Defect Layout := do
  let l ← l.noteCandidate
  let (t, rest) ← readTag (l.rest.drop 1)
  pure { (l.emit t).goTo rest with keyAllowed := false }

/-- A block of lines. A key may follow it. -/
def block (l : Layout) (folded : Bool) : Except Defect Layout := do
  let l ← l.dropCandidate
  let (text, rest) ← readBlock folded l.leastColumn (l.rest.drop 1)
  pure { (l.emit (.scalar text false)).goTo rest with keyAllowed := true }

/-- A scalar in quotes. -/
def quoted (l : Layout) (double : Bool) : Except Defect Layout := do
  let l ← l.noteCandidate
  let (text, rest) ← readQuoted double (l.rest.drop 1)
  pure { (l.emit (.scalar text false)).goTo rest with keyAllowed := false }

/-- A plain scalar. A key may follow it in a new line. -/
def plain (l : Layout) : Except Defect Layout := do
  let l ← l.noteCandidate
  let s := readPlain l.inFlow l.leastColumn l.rest
  pure { (l.emit (.scalar s.text true)).goTo s.rest with keyAllowed := s.newLine }

/-- The characters that no plain scalar starts with. -/
def reserved : List Char := ",[]\x7b\x7d#&*!|>'\"%@\x60".toList

/-- Whether a plain scalar starts with a character. Hyphens, and outside of brackets
question marks and colons, must not stand alone. -/
def startsPlain (inFlow : Bool) (c : Char) (rest : List Char) : Bool :=
  if c = '-' then !atBlank rest
  else if c = '?' || c = ':' then !inFlow && !atBlank rest
  else !(isSpaceOrTab c || isBreak c || reserved.contains c)

/-- The next token of a text that starts with a certain character. -/
def step (l : Layout) (c : Char) (rest : List Char) : Except Defect Layout :=
  if c = '%' ∧ l.place.column = 0 then l.directive
  else if l.place.column = 0 ∧ startsMark '-' l.rest then l.documentMark .documentOpen
  else if l.place.column = 0 ∧ startsMark '.' l.rest then l.documentMark .documentClose
  else if c = '[' then l.openFlow .bracketOpen
  else if c = '\x7b' then l.openFlow .braceOpen
  else if c = ']' then l.closeFlow .bracketClose
  else if c = '\x7d' then l.closeFlow .braceClose
  else if c = ',' then l.comma
  else if c = '-' ∧ atBlank rest then l.entry
  else if c = '?' ∧ (l.inFlow ∨ atBlank rest) then l.explicitKey
  else if c = ':' ∧ (l.inFlow ∨ atBlank rest) then l.value
  else if c = '*' then l.name .alias
  else if c = '&' then l.name .anchor
  else if c = '!' then l.tag
  else if c = '|' ∧ !l.inFlow then l.block false
  else if c = '>' ∧ !l.inFlow then l.block true
  else if c = '\'' then l.quoted false
  else if c = '"' then l.quoted true
  else if startsPlain l.inFlow c rest then l.plain
  else .error .malformed

/-- All tokens. Every step takes a character, so as much fuel as there are characters
is enough. -/
def run : Nat → Layout → Except Defect (List Token)
  | 0, _ => .error .malformed
  | fuel + 1, l => do
    let l ← l.advance
    match l.rest with
    | [] =>
      let l ← (l.closeBlocks none).dropCandidate
      pure l.tokens.reverse
    | c :: rest => run fuel (← l.step c rest)

end Layout

/-- The tokens of a text. -/
def tokensOf (s : String) : Except Defect (List Token) :=
  let cs := s.toList
  if cs.all isPrintable then Layout.run (cs.length + 1) { rest := cs } else .error .malformed

end Yaml
end TrustFramework
