import TrustFramework.Distinct
import TrustFramework.Policy.Tree

/-!
# Looking at nodes of a policy tree

A child may stand alone or in a list, and an element may be a text or an object;
these functions see through both.

* `Node.asList` — a value as a list.
* `Node.children` — the elements under a path of names.
* `Node.attribute?` — an attribute as text.
* `Node.text?`, `Node.textOf?` — the text of a node, or of one of its children.
-/

namespace TrustFramework
namespace Policy
namespace Node

/-- A value as a list: nothing and the empty text have no items, a list has its
own, and anything else is the only one. -/
def asList : Value → List Value
  | .null => []
  | .text s => if s.isEmpty then [] else [.text s]
  | .list items => items
  | v => [v]

/-- The elements of one name under a node. -/
def named (name : String) (node : Value) : List Value :=
  match node with
  | .object fields => asList ((Fields.get? fields name).getD .null)
  | _ => []

/-- The elements under a path of names; every step may be alone or in a list. -/
def children (node : Value) (path : List String) : List Value :=
  path.foldl (fun nodes name => nodes.flatMap (named name)) [node]

/-- An attribute of a node as text. -/
def attribute? (node : Value) (name : String) : Option String :=
  match node.get? (Tree.attributeField name) with
  | none => none
  | some .null => none
  | some v => some v.shown

/-- The first item of a list, nothing of an empty one; any other value itself. -/
def first : Value → Value
  | .list items => items.head?.getD .null
  | v => v

/-- The text field of an object; any other value itself. -/
def ownText : Value → Value
  | .object fields => (Fields.get? fields Tree.textField).getD .null
  | v => v

/-- A value as text, unless it is nothing or empty. -/
def textIn : Value → Option String
  | .null => none
  | .text s => if s.isEmpty then none else some s
  | v => some v.shown

/-- The text of a node, unless it is empty. -/
def text? (node : Value) : Option String := textIn (ownText (first node))

/-- The text of a child of a node, unless it is empty. -/
def textOf? (node : Value) (name : String) : Option String := text? (node.get name)

/-- An attribute as text that is not empty. -/
def solidAttribute? (node : Value) (name : String) : Option String :=
  (attribute? node name).filter fun s => !s.isEmpty

/-- The identifier of a node, if it has one. -/
def id? (node : Value) : Option String := solidAttribute? node "Id"

end Node
end Policy
end TrustFramework
