import Mathlib.Data.List.Induction
import TrustFramework.Distinct
import TrustFramework.Fields

/-!
# Unions of fields

Fields that are updated with others one after the other end up as the union of these, in which
each name has the value that was given to it last and stands where it came first.

## Main definitions

* `Fields.IsUnion` — fields are the union of others.

## Main results

* `Fields.get?_update`, `Fields.names_update` — what an update does.
* `Fields.IsUnion.update` — **an update makes the union one part longer.**
-/

namespace TrustFramework

namespace Fields

variable {α : Type}

/-- The value that is given to a name last. -/
def last? (entries : List (String × α)) (name : String) : Option α :=
  ((entries.filter fun entry => entry.1 = name).getLast?).map Prod.snd

/-- Fields are the union of others: they have the names of all of these, in the order in which
they came first, each with the value that it was given last. -/
structure IsUnion (parts : List (Fields α)) (whole : Fields α) : Prop where
  names_eq : whole.names = distinct (names parts.flatten)
  get?_eq : ∀ name, whole.get? name = last? parts.flatten name

theorem has_eq_contains (fields : Fields α) (name : String) :
    fields.has name = fields.names.contains name := by
  induction fields with
  | nil => rfl
  | cons entry rest ih =>
    have hcons : names (entry :: rest) = entry.1 :: names rest := rfl
    rw [has, ih, hcons, List.contains_cons, BEq.comm]
    rfl

theorem last?_cons (entry : String × α) (entries : List (String × α)) (name : String) :
    last? (entry :: entries) name =
      (last? entries name).or (if entry.1 = name then some entry.2 else none) := by
  unfold last?
  by_cases h : entry.1 = name
  · rw [List.filter_cons_of_pos (by simpa using h), if_pos h, List.getLast?_cons]
    cases (entries.filter fun entry => entry.1 = name).getLast? <;> rfl
  · rw [List.filter_cons_of_neg (by simpa using h), if_neg h, Option.or_none]

theorem last?_append (entries more : List (String × α)) (name : String) :
    last? (entries ++ more) name = (last? more name).or (last? entries name) := by
  induction entries with
  | nil => simp [last?]
  | cons entry entries ih => rw [List.cons_append, last?_cons, last?_cons, ih, Option.or_assoc]

/-- After an update a name has the value that the update gives to it last, if it does. -/
theorem get?_update (fields news : Fields α) (name : String) :
    (fields.update news).get? name = (last? news name).or (fields.get? name) := by
  unfold update
  induction news generalizing fields with
  | nil => rfl
  | cons entry news ih =>
    rw [List.foldl_cons, ih, last?_cons, Option.or_assoc]
    by_cases h : entry.1 = name
    · subst h
      rw [get?_set_self, if_pos rfl, Option.some_or]
    · rw [get?_set_of_ne _ _ (Ne.symm h), if_neg h, Option.none_or]

/-- The names stay in their order, those that are new follow. -/
theorem names_update (fields news : Fields α) :
    (fields.update news).names = addAllNew fields.names news.names := by
  unfold update
  induction news generalizing fields with
  | nil => rfl
  | cons entry news ih => rw [List.foldl_cons, ih, names_set, has_eq_contains]; rfl

theorem isUnion_nil : IsUnion ([] : List (Fields α)) [] := ⟨rfl, fun _ => rfl⟩

/-- **An update makes the union one part longer.** -/
theorem IsUnion.update {parts : List (Fields α)} {whole : Fields α} (h : IsUnion parts whole)
    (news : Fields α) : IsUnion (parts ++ [news]) (whole.update news) where
  names_eq := by
    have happend : names (parts ++ [news]).flatten = names parts.flatten ++ news.names := by
      rw [List.flatten_append, List.flatten_singleton, names, List.map_append]
      rfl
    rw [names_update, h.names_eq, happend]
    exact List.foldl_append.symm
  get?_eq name := by
    rw [get?_update, h.get?_eq, List.flatten_append, List.flatten_singleton, last?_append]

end Fields
end TrustFramework
