import TrustFramework.Policy.Node

/-!
# Merging elements

A derived policy carries only the pieces it changes. Its attributes and text win;
children merge element by element where both sides can be told apart by the
attributes that refer to something, and otherwise the derived children stand in
for the others.

* `referenceKey` — the attributes that tell an element from its siblings.
* `replaceLast` — the last item of a list with a property changed.
* `mergeElement` — a derived element laid onto another.
* `mergeItems` — derived items laid onto others, matched by a key.
-/

namespace TrustFramework
namespace Policy

/-! ### Telling siblings apart -/

/-- The attributes that identify one of several siblings. -/
def referenceAttributes : List String :=
  ["Id", "Order", "ClaimTypeReferenceId", "Key", "ReferenceId", "ElementType", "ElementId",
    "StringId"]

/-- An attribute that is there and not empty, as text. -/
def referenceAttribute? (node : Value) (name : String) : Option String :=
  match node.get? (Tree.attributeField name) with
  | none => none
  | some .null => none
  | some (.text s) => if s.isEmpty then none else some s
  | some v => some v.shown

/-- The identifying attributes of an element with their values. -/
def referenceKey (node : Value) : List (String × String) :=
  referenceAttributes.filterMap fun name =>
    (referenceAttribute? node name).map fun value => (name, value)

/-- The order of an element among its siblings, zero if it has no number. -/
def orderOf (node : Value) : Int :=
  match Node.attribute? node "Order" with
  | some s => (Text.readInt? s).getD 0
  | none => 0

/-- Items in ascending order if every one has an order, else as they are. -/
def inOrder (items : List Value) : List Value :=
  if items.all fun v => (Node.solidAttribute? v "Order").isSome then
    items.mergeSort fun a b => orderOf a ≤ orderOf b
  else items

/-- A list with the last item that has a property changed, if one has it. -/
def replaceLast {α : Type} (p : α → Bool) (f : α → α) : List α → Option (List α)
  | [] => none
  | x :: xs =>
    match replaceLast p f xs with
    | some ys => some (x :: ys)
    | none => if p x then some (f x :: xs) else none

/-! ### Merging -/

/-- An incoming element with what laying it onto another one gives. -/
abbrev Incoming := Value × (Value → Value)

/-- Incoming elements matched by their keys: onto the element with the same key, or
to the end. -/
def mergeKeyed (items : List Value) (incoming : List Incoming) : List Value :=
  incoming.foldl (fun items next =>
    let key := referenceKey next.1
    (replaceLast (fun v => referenceKey v == key) next.2 items).getD (items ++ [next.1])) items

/-- A single merged element stands alone if both sides did. -/
def alone (existing derived : Value) (merged : List Value) : Value :=
  match merged with
  | [v] => if existing.isList || derived.isList then .list [v] else v
  | items => .list items

/-- The children of one name on both sides merged. `incoming` are the derived ones. -/
def mergeChildren (existing derived : Value) (incoming : List Incoming) : Value :=
  let current := Node.asList existing
  if incoming.isEmpty then existing
  else if current.isEmpty then derived
  else if current.all (fun v => !(referenceKey v).isEmpty) &&
      incoming.all (fun next => !(referenceKey next.1).isEmpty) then
    alone existing derived (inOrder (mergeKeyed current incoming))
  else match current, incoming with
    | [v], [next] =>
      if v.isObject && next.1.isObject then alone existing derived [next.2 v] else derived
    | _, _ => derived

mutual
/-- A derived element laid onto a target. Attributes and text of the derived one
win; other fields merge. -/
def mergeOnto : Value → Value → Value
  | .object fields, target =>
    match target with
    | .object old => .object (mergeFields fields old)
    | _ => .object fields
  | v, _ => v

/-- Derived fields laid onto others. -/
def mergeFields : List (String × Value) → Fields Value → Fields Value
  | [], old => old
  | (name, .list items) :: rest, old =>
    mergeFields rest (old.set name (if Tree.isAttribute name || name = Tree.textField then
        .list items
      else match old.get? name with
        | none => .list items
        | some existing => mergeChildren existing (.list items) (mergers items)))
  | (name, v) :: rest, old =>
    mergeFields rest (old.set name (if Tree.isAttribute name || name = Tree.textField then v
      else match old.get? name with
        | none => v
        | some existing =>
          mergeChildren existing v (if (Node.asList v).isEmpty then [] else [(v, mergeOnto v)])))

/-- Derived elements, each with what laying it onto another gives. -/
def mergers : List Value → List Incoming
  | [] => []
  | v :: rest => (v, mergeOnto v) :: mergers rest
end

/-- A source element laid onto a target. -/
def mergeElement (target source : Value) : Value := mergeOnto source target

/-- Derived items laid onto others: onto the last one with the same key, or to the
end. An item without a key matches nothing. -/
def mergeItems (key : Value → Option String) (existing incoming : List Value) : List Value :=
  incoming.foldl (fun items v =>
    match key v with
    | none => items ++ [v]
    | some k =>
      (replaceLast (fun w => key w == some k) (mergeElement · v) items).getD (items ++ [v]))
    existing

end Policy
end TrustFramework
