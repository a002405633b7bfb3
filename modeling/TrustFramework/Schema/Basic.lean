import TrustFramework.Schema.Node

/-!
# Schemas

A schema states what a node must be. All that is wrong with a node is listed, each
violation with the path to its place, and the list is in the order of the paths.

* `Schema` — the shapes that can be asked for.
* `Schema.violations` — what is wrong with a node.
* `Schema.problems` — the same in words.
-/

namespace TrustFramework

/-- What a node must be. -/
inductive Schema where
  /-- Anything. -/
  | any
  /-- A text, with so many characters at least, that starts in a certain way; or
  nothing, if that is allowed. -/
  | text (orNull : Bool) (nonEmpty : Bool) (start : String)
  /-- A whole number that is not negative. A floating point number without a fraction
  counts as whole. -/
  | count
  /-- One of some texts. -/
  | oneOf (choices : List String)
  /-- A list of nodes of one shape. -/
  | list (nonEmpty : Bool) (item : Schema)
  /-- A mapping. A closed one has no other keys than its properties. -/
  | mapping (closed : Bool) (required : List String) (properties : List (String × Schema))

namespace Schema

/-- Something wrong with the node at a path. -/
structure Violation where
  path : List String
  message : String
  deriving DecidableEq, Repr

/-- A violation as a line. -/
def Violation.line (v : Violation) : String :=
  (if v.path.isEmpty then "<root>" else "/".intercalate v.path) ++ ": " ++ v.message

/-- The message about a node that is not of the types asked for. -/
def wrongType (n : Node) (types : String) : String := n.literal ++ " is not of type " ++ types

/-- What is wrong with a node that has to be a text. -/
def textMessages (orNull nonEmpty : Bool) (start : String) : Node → List String
  | .text s =>
    (if nonEmpty && s.isEmpty then [(Node.text s).literal ++ " should be non-empty"] else []) ++
    (if start.toList.isPrefixOf s.toList then []
      else [(Node.text s).literal ++ " does not match " ++ Text.quoted ("^" ++ start)])
  | .null => if orNull then [] else [wrongType .null "'string'"]
  | n => [wrongType n (if orNull then "'string', 'null'" else "'string'")]

/-- Whether a node is a whole number. -/
def isWhole : Node → Bool
  | .int _ => true
  | .real x => x.toInt?.isSome
  | _ => false

/-- Whether a node is a number below zero. -/
def isNegative : Node → Bool
  | .int n => n < 0
  | .real x => x.compareInt? 0 == some .lt
  | _ => false

/-- What is wrong with a node that has to be a count. -/
def countMessages (n : Node) : List String :=
  (if isWhole n then [] else [wrongType n "'integer'"]) ++
  (if isNegative n then [n.literal ++ " is less than the minimum of 0"] else [])

/-- What is wrong with a node that has to be one of some texts. -/
def choiceMessages (choices : List String) (n : Node) : List String :=
  if n.text?.any choices.contains then []
  else [n.literal ++ " is not one of [" ++ Value.commaJoined (choices.map Text.quoted) ++ "]"]

/-- What is wrong with a list apart from its items. -/
def listMessages (nonEmpty : Bool) : Node → List String
  | .list items =>
    if nonEmpty && items.isEmpty then [(Node.list items).literal ++ " should be non-empty"]
    else []
  | n => [wrongType n "'array'"]

/-- The message about keys that a closed mapping does not know. -/
def unknownMessage? (known : List String) (n : Node) : Option String :=
  let unknown := n.keys.filter fun key => !(key.text?.any known.contains)
  match unknown.mergeSort fun a b => a.shown ≤ b.shown with
  | [] => none
  | [key] => some ("Additional properties are not allowed (" ++ key.literal ++ " was unexpected)")
  | keys => some ("Additional properties are not allowed (" ++
      Value.commaJoined (keys.map Node.literal) ++ " were unexpected)")

/-- What is wrong with a mapping apart from its properties. -/
def mappingMessages (closed : Bool) (required known : List String) : Node → List String
  | .mapping entries =>
    (if closed then (unknownMessage? known (.mapping entries)).toList else []) ++
    (required.filter fun name => ((Node.mapping entries).get? name).isNone).map fun name =>
      Text.quoted name ++ " is a required property"
  | n => [wrongType n "'object'"]

mutual
/-- Everything wrong with a node at a path, in the order of the schema. -/
def check (path : List String) : Schema → Node → List Violation
  | any, _ => []
  | text orNull nonEmpty start, n => (textMessages orNull nonEmpty start n).map (⟨path, ·⟩)
  | count, n => (countMessages n).map (⟨path, ·⟩)
  | oneOf choices, n => (choiceMessages choices n).map (⟨path, ·⟩)
  | list nonEmpty item, n =>
    (listMessages nonEmpty n).map (⟨path, ·⟩) ++
      n.items.zipIdx.flatMap fun (m, i) => check (path ++ [toString i]) item m
  | mapping closed required properties, n =>
    (mappingMessages closed required (properties.map Prod.fst) n).map (⟨path, ·⟩) ++
      checkProperties path properties n

/-- Everything wrong with the properties of a mapping. -/
def checkProperties (path : List String) : List (String × Schema) → Node → List Violation
  | [], _ => []
  | (name, schema) :: rest, n =>
    (match n.get? name with
      | some m => check (path ++ [name]) schema m
      | none => []) ++ checkProperties path rest n
end

/-- Whether a path comes before another one or is the same. -/
def pathLe : List String → List String → Bool
  | [], _ => true
  | _ :: _, [] => false
  | a :: as, b :: bs => if a = b then pathLe as bs else a < b

/-- Everything wrong with a node, by path. -/
def violations (schema : Schema) (n : Node) : List Violation :=
  (schema.check [] n).mergeSort fun v w => pathLe v.path w.path

/-- Everything wrong with a node, in words. -/
def problems (schema : Schema) (n : Node) : List String :=
  (schema.violations n).map Violation.line

end Schema
end TrustFramework
