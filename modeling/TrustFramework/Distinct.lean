/-!
# Lists without repetition

* `addNew` — an item put at the end of a list, unless it is in it.
* `distinct` — the items of a list in the order of their first occurrence.
-/

namespace TrustFramework

variable {α : Type} [BEq α]

/-- A list with an item at its end, unless the item is in it already. -/
def addNew (items : List α) (x : α) : List α :=
  if items.contains x then items else items ++ [x]

/-- A list with each of other items that it does not have at its end. -/
def addAllNew (items others : List α) : List α := others.foldl addNew items

/-- The items of a list, each where it occurs first. -/
def distinct (items : List α) : List α := addAllNew [] items

end TrustFramework
