import TrustFramework.Yaml.Layout
import TrustFramework.Yaml.Meaning

/-!
# Trees

The tokens of a text are read as a tree of scalars, sequences and mappings. A name that
was given to a node stands for a copy of it later on; within the node itself it stands
for a circle.

* `Tree` — the type.
* `Reading` — what is left of the tokens, with the names and handles known so far.
* `Tree.ofTokens` — the tree of a document, if there is one.
-/

namespace TrustFramework
namespace Yaml

/-- A tree whose nodes have kinds. -/
inductive Tree where
  | scalar (kind : Kind) (text : String)
  | sequence (kind : Kind) (items : List Tree)
  | mapping (kind : Kind) (entries : List (Tree × Tree))
  /-- A collection within itself. -/
  | circle (isMapping : Bool)
  deriving Inhabited, Repr

/-- An empty node. -/
def Tree.empty : Tree := .scalar .null ""

/-- What is left of the tokens, and what is known so far. -/
structure Reading where
  tokens : List Token
  /-- The nodes with names, the last one first. -/
  named : List (String × Tree) := []
  /-- What handles stand for. -/
  handles : List (String × String) := []

/-- Readers of tokens. -/
abbrev Reader := StateT Reading (Except Defect)

namespace Reader

/-- The next token, which stays. -/
def peek? : Reader (Option Token) := return (← get).tokens.head?

/-- Goes on behind the next token. -/
def skip : Reader Unit := modify fun r => { r with tokens := r.tokens.drop 1 }

/-- Goes on behind the next token if it is a certain one. -/
def accept (t : Token) : Reader Bool := do
  if (← peek?) = some t then
    skip
    pure true
  else pure false

/-- Goes on behind the next token, which must be a certain one. -/
def expect (t : Token) : Reader Unit := do
  if !(← accept t) then throw .malformed

/-- Whether the next token is one of some. -/
def isNext (ts : List Token) : Reader Bool := return (← peek?).any ts.contains

end Reader

open Reader

/-! ### Properties of nodes -/

/-- What stands before a node: a name for it, and the full name of its kind. -/
structure Properties where
  name : Option String := none
  tag : Option String := none

/-- A name for the node that follows, if there is one. -/
def readName : Reader (Option String) := do
  match ← peek? with
  | some (.anchor name) =>
    skip
    pure (some name)
  | _ => pure none

/-- The full name of the kind of the node that follows, if there is one. -/
def readKindName : Reader (Option String) := do
  match ← peek? with
  | some (.tag none rest) =>
    skip
    pure (some rest)
  | some (.tag (some handle) rest) =>
    skip
    let some stands := (← get).handles.lookup handle | throw .malformed
    pure (some (stands ++ rest))
  | _ => pure none

/-- A name and a tag in either order. -/
def readProperties : Reader Properties := do
  match ← readName with
  | some name => pure ⟨some name, ← readKindName⟩
  | none =>
    let tag ← readKindName
    pure ⟨← readName, tag⟩

namespace Properties

/-- Whether the kind is left open. A tag of a single exclamation mark leaves it open. -/
def isOpen (p : Properties) : Bool := p.tag.all (· = "!")

/-- The kind of a collection, which has a kind of its own when it is left open. -/
def kindOr (p : Properties) (own : Kind) : Kind :=
  if p.isOpen then own else p.tag.elim own Kind.ofName

/-- The kind of a scalar. If it is left open, a plain one is of the kind it looks like,
and so is any scalar with a mark that leaves the kind open. -/
def scalarKind (p : Properties) (text : String) (plain : Bool) : Kind :=
  if plain || p.tag.isSome then p.kindOr (Kind.implied text) else .text

/-- Notes what the name stands for, in place of what it stood for within the node. -/
def note (p : Properties) (t : Tree) : Reader Tree := do
  if let some name := p.name then modify fun r => { r with named := (name, t) :: r.named }
  pure t

/-- A name cannot be given twice. -/
def check (p : Properties) : Reader Unit := do
  if let some name := p.name then
    if ((← get).named.lookup name).isSome then throw .malformed

end Properties

/-! ### Nodes -/

/-- A node, unless one of some tokens is next; then there is an empty one. -/
def unlessNext (ts : List Token) (node : Reader Tree) : Reader Tree := do
  if ← isNext ts then pure .empty else node

/-- The value of a key, which may be missing; an empty one stands before the tokens
`ends`. -/
def readValue (ends : List Token) (node : Reader Tree) : Reader Tree := do
  if ← accept .value then unlessNext ends node else pure .empty

mutual
/-- A node. Only a block may hold block collections, and only a key or a value of a
mapping may be a list that is not indented. Every call but one in two takes a token, so
twice as much fuel as there are tokens is enough. -/
def readNode : Nat → (inBlock unindented : Bool) → Reader Tree
  | 0, _, _ => throw .malformed
  | fuel + 1, inBlock, unindented => do
    if let some (.alias name) ← peek? then
      skip
      let some t := (← get).named.lookup name | throw .malformed
      return t
    let p ← readProperties
    p.check
    match ← peek?, inBlock, unindented with
    | some (.scalar text plain), _, _ =>
      skip
      p.note (.scalar (p.scalarKind text plain) text)
    | some .bracketOpen, _, _ =>
      skip
      let _ ← p.note (.circle false)
      p.note (.sequence (p.kindOr .list) (← readItems fuel true))
    | some .braceOpen, _, _ =>
      skip
      let _ ← p.note (.circle true)
      p.note (.mapping (p.kindOr .mapping) (← readPairs fuel true))
    | some .entry, _, true =>
      let _ ← p.note (.circle false)
      p.note (.sequence (p.kindOr .list) (← readEntries fuel [.entry, .key, .value, .blockClose]))
    | some .sequenceOpen, true, _ =>
      skip
      let _ ← p.note (.circle false)
      let items ← readEntries fuel [.entry, .blockClose]
      expect .blockClose
      p.note (.sequence (p.kindOr .list) items)
    | some .mappingOpen, true, _ =>
      skip
      let _ ← p.note (.circle true)
      let entries ← readKeys fuel
      expect .blockClose
      p.note (.mapping (p.kindOr .mapping) entries)
    | _, _, _ =>
      if p.name.isNone && p.tag.isNone then throw .malformed
      p.note (.scalar (p.kindOr .null) "")

/-- The items of a list in lines of their own. An item is empty before `ends`. -/
def readEntries : Nat → List Token → Reader (List Tree)
  | 0, _ => throw .malformed
  | fuel + 1, ends => do
    if ← accept .entry then
      let item ← unlessNext ends (readNode fuel true false)
      pure (item :: (← readEntries fuel ends))
    else pure []

/-- The entries of a mapping in lines of their own. -/
def readKeys : Nat → Reader (List (Tree × Tree))
  | 0 => throw .malformed
  | fuel + 1 => do
    if ← accept .key then
      let ends := [Token.key, .value, .blockClose]
      let key ← unlessNext ends (readNode fuel true true)
      let value ← readValue ends (readNode fuel true true)
      pure ((key, value) :: (← readKeys fuel))
    else pure []

/-- The items of a list up to its closing bracket. An item can be a mapping of one
entry without braces. -/
def readItems : Nat → (first : Bool) → Reader (List Tree)
  | 0, _ => throw .malformed
  | fuel + 1, first => do
    if ← accept .bracketClose then return []
    if !first then expect .comma
    if ← accept .bracketClose then return []
    let ends := [Token.comma, .bracketClose]
    if ← accept .key then
      let key ← unlessNext (.value :: ends) (readNode fuel false false)
      let value ← readValue ends (readNode fuel false false)
      pure (.mapping .mapping [(key, value)] :: (← readItems fuel false))
    else
      let item ← readNode fuel false false
      pure (item :: (← readItems fuel false))

/-- The entries of a mapping up to its closing brace. -/
def readPairs : Nat → (first : Bool) → Reader (List (Tree × Tree))
  | 0, _ => throw .malformed
  | fuel + 1, first => do
    if ← accept .braceClose then return []
    if !first then expect .comma
    if ← accept .braceClose then return []
    let ends := [Token.comma, .braceClose]
    if ← accept .key then
      let key ← unlessNext (.value :: ends) (readNode fuel false false)
      let value ← readValue ends (readNode fuel false false)
      pure ((key, value) :: (← readPairs fuel false))
    else
      let key ← readNode fuel false false
      pure ((key, .empty) :: (← readPairs fuel false))
end

/-! ### Documents -/

/-- What the handles stand for that need no directive. -/
def standardHandles : List (String × String) := [("!", "!"), ("!!", standardPrefix)]

/-- The directives at the front of some tokens, and the rest. -/
def spanDirectives : List Token → List Directive × List Token
  | .directive d :: rest =>
    let (ds, rest) := spanDirectives rest
    (d :: ds, rest)
  | ts => ([], ts)

/-- What handles stand for, by directives and then by standard. Only a version that
begins with one is known, and nothing may be told twice. -/
def handlesOf (ds : List Directive) : Except Defect (List (String × String)) :=
  let versions := ds.filterMap fun
    | .version major _ => some major
    | _ => none
  let told := ds.filterMap fun
    | .handle name stands => some (name, stands)
    | _ => none
  if versions.all (· = 1) && versions.length ≤ 1 && decide (told.map Prod.fst).Nodup then
    .ok (told ++ standardHandles)
  else .error .malformed

/-- Whether nothing stands in a document before some tokens. -/
def endsDocument : List Token → Bool
  | [] => true
  | .directive _ :: _ => true
  | t :: _ => t = .documentOpen || t = .documentClose

/-- The tree of the one document that some tokens hold; none if they hold none. -/
def Tree.ofTokens (ts : List Token) : Except Defect (Option Tree) := do
  if ts.isEmpty then return none
  let (ds, rest) := spanDirectives ts
  let handles ← handlesOf ds
  let marked := rest.head? = some .documentOpen
  if !marked && !ds.isEmpty then throw .malformed
  let content := if marked then rest.drop 1 else rest
  let (tree, rest) ←
    if marked && endsDocument content then pure (Tree.empty, content)
    else do
      let (tree, r) ← (readNode (2 * content.length + 2) true false).run ⟨content, [], handles⟩
      pure (tree, r.tokens)
  if rest.all (· = .documentClose) then pure (some tree) else throw .malformed

end Yaml
end TrustFramework
