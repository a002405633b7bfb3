import TrustFramework.Value

/-!
# Telling values apart

Two values are equal if they have the same shape and the same texts and numbers in it, the order
of fields included.  That can be computed, so that a tree that is read can be compared with the one
that it is said to be.

## Main results

* `Value.induction` — induction on values: the items of a list, the values of an object's fields.
* `Value.equals_iff` — **values that compare as equal are equal.**
-/

namespace TrustFramework
namespace Value

/-- Induction on values: what passes from items to their list, and from the values of fields to
their object, holds of every value if it holds of those without parts. -/
@[elab_as_elim]
theorem induction {P : Value → Prop}
    (atom : ∀ v : Value, v.isList = false → v.isObject = false → P v)
    (list : ∀ items : List Value, (∀ v ∈ items, P v) → P (.list items))
    (object : ∀ fields : Fields Value, (∀ e ∈ fields, P e.2) → P (.object fields)) :
    ∀ v : Value, P v
  | .list items => list items fun v _ => induction atom list object v
  | .object fields => object fields fun e _ => induction atom list object e.2
  | .null => atom _ rfl rfl
  | .bool _ => atom _ rfl rfl
  | .int _ => atom _ rfl rfl
  | .real _ => atom _ rfl rfl
  | .text _ => atom _ rfl rfl
decreasing_by
  · decreasing_tactic
  · -- the value of a field is part of the pair, and the pair of the fields
    have hpair : sizeOf e.2 < sizeOf e := by
      cases e
      simp only [Prod.mk.sizeOf_spec]
      omega
    have hfields : sizeOf e < sizeOf fields := List.sizeOf_lt_of_mem ‹e ∈ fields›
    simp only [Value.object.sizeOf_spec]
    omega

mutual
/-- Whether two values are equal. -/
def equals : Value → Value → Bool
  | null, null => true
  | bool b, bool c => b == c
  | int m, int n => m == n
  | real x, real y => x == y
  | text s, text t => s == t
  | list vs, list ws => equalsItems vs ws
  | object fs, object gs => equalsFields fs gs
  | _, _ => false

/-- Whether two lists of values are equal. -/
def equalsItems : List Value → List Value → Bool
  | [], [] => true
  | v :: vs, w :: ws => equals v w && equalsItems vs ws
  | _, _ => false

/-- Whether the fields of two objects are equal. -/
def equalsFields : List (String × Value) → List (String × Value) → Bool
  | [], [] => true
  | (n, v) :: fs, (m, w) :: gs => n == m && equals v w && equalsFields fs gs
  | _, _ => false
end

mutual
/-- **Values that compare as equal are equal.** -/
theorem equals_iff : ∀ {v w : Value}, equals v w = true ↔ v = w := by
  intro v w
  cases v <;> cases w <;> simp only [equals, Bool.false_eq_true, reduceCtorEq, beq_iff_eq,
    bool.injEq, int.injEq, real.injEq, text.injEq]
  case list.list vs ws => rw [equalsItems_iff, list.injEq]
  case object.object fs gs => rw [equalsFields_iff, object.injEq]

theorem equalsItems_iff : ∀ {vs ws : List Value}, equalsItems vs ws = true ↔ vs = ws
  | [], [] => by simp [equalsItems]
  | [], _ :: _ => by simp [equalsItems]
  | _ :: _, [] => by simp [equalsItems]
  | v :: vs, w :: ws => by
    rw [equalsItems, Bool.and_eq_true, equals_iff, equalsItems_iff, List.cons.injEq]

theorem equalsFields_iff :
    ∀ {fs gs : List (String × Value)}, equalsFields fs gs = true ↔ fs = gs
  | [], [] => by simp [equalsFields]
  | [], _ :: _ => by simp [equalsFields]
  | _ :: _, [] => by simp [equalsFields]
  | (n, v) :: fs, (m, w) :: gs => by
    rw [equalsFields, Bool.and_eq_true, Bool.and_eq_true, beq_iff_eq, equals_iff,
      equalsFields_iff, List.cons.injEq, Prod.mk.injEq]
end

instance : DecidableEq Value := fun _ _ => decidable_of_iff _ equals_iff

end Value
end TrustFramework
