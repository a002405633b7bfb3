import TrustFramework.Value

/-!
# Nodes of a document

A document of settings holds what a value holds, and more: keys of mappings need not
be texts, and there are dates and other scalars that no setting asks for. Of the
latter only the literal is kept.

* `Node` — the type; `Node.ofValue` — a value as a node.
* `Node.literal`, `Node.shown` — a node as the literal that denotes it, and as text.
* `Node.get?` — what a mapping holds under a text.
-/

namespace TrustFramework

/-- A node of a document. -/
inductive Node where
  | null
  | bool (b : Bool)
  | int (n : Int)
  | real (x : Binary64)
  | text (s : String)
  /-- A node of a type that nothing asks for, by its literal and its text. -/
  | other (literal shown : String)
  | list (items : List Node)
  | mapping (entries : List (Node × Node))
  deriving Inhabited, Repr

namespace Node

mutual
/-- A value as a node. -/
def ofValue : Value → Node
  | .null => null
  | .bool b => bool b
  | .int n => int n
  | .real x => real x
  | .text s => text s
  | .list items => list (ofItems items)
  | .object fields => mapping (ofFields fields)

/-- The items of a list as nodes. -/
def ofItems : List Value → List Node
  | [] => []
  | v :: rest => ofValue v :: ofItems rest

/-- The fields of an object as the entries of a mapping. -/
def ofFields : List (String × Value) → List (Node × Node)
  | [] => []
  | (name, v) :: rest => (text name, ofValue v) :: ofFields rest
end

mutual
/-- The literal that denotes a node. -/
def literal : Node → String
  | null => Value.null.literal
  | bool b => (Value.bool b).literal
  | int n => (Value.int n).literal
  | real x => (Value.real x).literal
  | text s => (Value.text s).literal
  | other s _ => s
  | list items => "[" ++ Value.commaJoined (itemLiterals items) ++ "]"
  | mapping entries => "\x7b" ++ Value.commaJoined (entryLiterals entries) ++ "\x7d"

/-- The literals of the items of a list. -/
def itemLiterals : List Node → List String
  | [] => []
  | n :: rest => literal n :: itemLiterals rest

/-- The entries of a mapping, each as the literals of its key and its value with a
colon between them. -/
def entryLiterals : List (Node × Node) → List String
  | [] => []
  | (k, n) :: rest => (literal k ++ ": " ++ literal n) :: entryLiterals rest
end

/-- A node as text: a text is itself, and most others are their literals. -/
def shown : Node → String
  | text s => s
  | other _ shown => shown
  | n => n.literal

/-- The text, if the node is one. -/
def text? : Node → Option String
  | text s => some s
  | _ => none

/-- The items of a list; anything else has none. -/
def items : Node → List Node
  | list items => items
  | _ => []

/-- The keys of a mapping; anything else has none. -/
def keys : Node → List Node
  | mapping entries => entries.map Prod.fst
  | _ => []

/-- The node under a text in a list of entries. -/
def getIn? (name : String) : List (Node × Node) → Option Node
  | [] => none
  | (key, n) :: rest => if key.text? = some name then some n else getIn? name rest

/-- What a mapping holds under a text. -/
def get? (n : Node) (name : String) : Option Node :=
  match n with
  | mapping entries => getIn? name entries
  | _ => none

end Node
end TrustFramework
