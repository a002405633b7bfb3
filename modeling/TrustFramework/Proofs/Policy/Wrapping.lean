import TrustFramework.Proofs.Policy.NormalForm

/-!
# Normal form by wrapping

A tree is in normal form if every element in it that may repeat is a list, however deep it is and
whatever lists it is in.  To get there it is enough to wrap values: where the value of an element
that may repeat is no list, it becomes the only item of one.  Normal form is what comes of wrapping
wherever that can be done and doing nothing else.  It is the only tree in normal form that wrapping
leads to, so a tree that is in normal form already stays as it is.

## Main definitions

* `Value.IsPart` — a value stands in another one, at any depth.
* `Tree.AllListed` — every element in a tree that may repeat is a list.
* `Tree.IsWrapped` — a tree comes of another one by wrapping values.

## Main results

* `Tree.allListed_normalize` — **in normal form every element that may repeat is a list.**
* `Tree.isWrapped_normalize` — **normal form comes by wrapping.**
* `Tree.eq_normalize_iff` — **nothing else that comes by wrapping has lists everywhere.**
* `Tree.normalize_eq_self_iff` — the trees that stay as they are.
* `Tree.allListed_of_parse` — the tree of a document is one of them.
-/

namespace TrustFramework

/-! ### Parts of values -/

namespace Value

/-- A value stands in another one: it is that one, or stands in an item or a field of it. -/
inductive IsPart (w : Value) : Value → Prop
  | self : IsPart w w
  | item {v : Value} {items : List Value} (hv : v ∈ items) (h : IsPart w v) :
      IsPart w (.list items)
  | field {e : String × Value} {fields : Fields Value} (he : e ∈ fields) (h : IsPart w e.2) :
      IsPart w (.object fields)

end Value

/-- Two lists that are related item by item, where only the value of a function is related to an
item. -/
theorem eq_map_of_forall₂ {α β : Type} {R : α → β → Prop} {f : α → β} {as : List α} {bs : List β}
    (h : List.Forall₂ R as bs) (hf : ∀ a ∈ as, ∀ b ∈ bs, R a b → b = f a) : bs = as.map f := by
  induction h with
  | nil => rfl
  | cons hab _ ih =>
    rw [List.map_cons, ← hf _ List.mem_cons_self _ List.mem_cons_self hab,
      ← ih fun a ha b hb => hf a (List.mem_cons_of_mem _ ha) b (List.mem_cons_of_mem _ hb)]

namespace Policy
namespace Tree

variable {t u v : Value} {name : String}

/-! ### Lists everywhere -/

/-- Every element in a tree that may repeat is a list, whatever object it is in. -/
def AllListed (t : Value) : Prop :=
  ∀ fields, Value.IsPart (.object fields) t → ∀ e ∈ fields, e.1 ∈ repeatable → e.2.isList = true

theorem allListed_of_atom (hlist : v.isList = false) (hobject : v.isObject = false) :
    AllListed v := by
  intro fields hpart
  cases hpart with
  | self => cases hobject
  | item => cases hlist
  | field => cases hobject

theorem allListed_list_iff {items : List Value} :
    AllListed (.list items) ↔ ∀ v ∈ items, AllListed v := by
  constructor
  · intro h v hv fields hpart
    exact h fields (.item hv hpart)
  · intro h fields hpart
    cases hpart with
    | item hv hpart => exact h _ hv fields hpart

theorem allListed_object_iff {fields : Fields Value} :
    AllListed (.object fields) ↔
      ∀ e ∈ fields, (e.1 ∈ repeatable → e.2.isList = true) ∧ AllListed e.2 := by
  constructor
  · intro h e he
    exact ⟨h fields .self e he, fun inner hpart => h inner (.field he hpart)⟩
  · intro h inner hpart
    cases hpart with
    | self => exact fun e he => (h e he).1
    | field he hpart => exact (h _ he).2 inner hpart

/-! ### Wrapping -/

/-- A field is kept, or its element may repeat and its value, which was no list, is wrapped.
Either way something may change inside of the value. -/
inductive IsWrappedField (R : Value → Value → Prop) : String × Value → String × Value → Prop
  | kept {name : String} {v w : Value} (h : R v w) : IsWrappedField R (name, v) (name, w)
  | wrapped {name : String} {v w : Value} (hname : name ∈ repeatable) (hv : v.isList = false)
      (h : R v w) : IsWrappedField R (name, v) (name, .list [w])

/-- A tree comes of another one by wrapping values of elements that may repeat. -/
inductive IsWrapped : Value → Value → Prop
  | atom {v : Value} (hlist : v.isList = false) (hobject : v.isObject = false) : IsWrapped v v
  | list {items items' : List Value} (h : List.Forall₂ IsWrapped items items') :
      IsWrapped (.list items) (.list items')
  | object {fields fields' : Fields Value}
      (h : List.Forall₂ (IsWrappedField IsWrapped) fields fields') :
      IsWrapped (.object fields) (.object fields')

/-- Nothing need be wrapped. -/
theorem IsWrapped.refl (t : Value) : IsWrapped t t := by
  induction t using Value.induction with
  | atom v hlist hobject => exact .atom hlist hobject
  | list items ih => exact .list (List.forall₂_same.mpr ih)
  | object fields ih => exact .object (List.forall₂_same.mpr fun e he => .kept (ih e he))

/-! ### Normal form -/

theorem listed_of_mem (hname : name ∈ repeatable) (hv : v.isList = false) :
    listed name v = .list [v] := by
  rw [listed_of_repeatable (List.contains_iff_mem.mpr hname), hv]
  rfl

theorem listed_of_imp (h : name ∈ repeatable → v.isList = true) : listed name v = v := by
  by_cases hname : name ∈ repeatable
  · rw [listed_of_repeatable (List.contains_iff_mem.mpr hname), if_pos (h hname)]
  · exact listed_of_not_repeatable (by simpa using hname) v

/-- The value of a field in normal form is in a list if it has to be. -/
theorem isList_listed (hname : name ∈ repeatable) (v : Value) : (listed name v).isList = true := by
  cases hv : v.isList with
  | true => rw [listed_of_imp fun _ => hv, hv]
  | false => rw [listed_of_mem hname hv]; rfl

theorem AllListed.listed (h : AllListed v) (name : String) : AllListed (listed name v) := by
  by_cases hwrap : name ∈ repeatable ∧ v.isList = false
  · rw [listed_of_mem hwrap.1 hwrap.2, allListed_list_iff]
    simpa using h
  · rwa [listed_of_imp fun hname => by simpa [hname] using hwrap]

/-- **In normal form every element that may repeat is a list.** -/
theorem allListed_normalize (t : Value) : AllListed (normalize t) := by
  induction t using Value.induction with
  | atom v hlist hobject =>
    rw [normalize_of_atom hlist hobject]
    exact allListed_of_atom hlist hobject
  | list items ih =>
    rw [normalize_list, allListed_list_iff]
    exact List.forall_mem_map.mpr ih
  | object fields ih =>
    rw [normalize_object, allListed_object_iff]
    refine List.forall_mem_map.mpr fun e he => ⟨fun hname => isList_listed hname _, ?_⟩
    exact (ih e he).listed e.1

/-- **Normal form comes by wrapping.** -/
theorem isWrapped_normalize (t : Value) : IsWrapped t (normalize t) := by
  induction t using Value.induction with
  | atom v hlist hobject =>
    rw [normalize_of_atom hlist hobject]
    exact .atom hlist hobject
  | list items ih =>
    rw [normalize_list]
    exact .list (List.forall₂_map_right_iff.mpr (List.forall₂_same.mpr ih))
  | object fields ih =>
    rw [normalize_object]
    refine .object (List.forall₂_map_right_iff.mpr (List.forall₂_same.mpr ?_))
    rintro ⟨name, v⟩ he
    by_cases hwrap : name ∈ repeatable ∧ v.isList = false
    · rw [listed_of_mem hwrap.1 ((isList_normalize v).trans hwrap.2)]
      exact .wrapped hwrap.1 hwrap.2 (ih _ he)
    · rw [listed_of_imp fun hname => by simpa [hname, isList_normalize] using hwrap]
      exact .kept (ih _ he)

/-- Wrapping leaves no other tree in normal form: where an element that may repeat is no list, its
value has to be wrapped, and anywhere else none can be. -/
theorem IsWrapped.eq_normalize (h : IsWrapped t u) (hu : AllListed u) : u = normalize t := by
  induction t using Value.induction generalizing u with
  | atom v hlist hobject =>
    cases h with
    | atom => exact (normalize_of_atom hlist hobject).symm
    | list => cases hlist
    | object => cases hobject
  | list items ih =>
    cases h with
    | atom hlist => cases hlist
    | list h =>
      rw [allListed_list_iff] at hu
      rw [normalize_list, eq_map_of_forall₂ h fun v hv w hw hwrapped => ih v hv hwrapped (hu w hw)]
  | object fields ih =>
    cases h with
    | atom _ hobject => cases hobject
    | object h =>
      rw [allListed_object_iff] at hu
      rw [normalize_object, eq_map_of_forall₂ h]
      rintro ⟨name, v⟩ he e' he' hfield
      obtain ⟨hlist, hlisted⟩ := hu e' he'
      cases hfield with
      | kept hwrapped =>
        obtain rfl := ih _ he hwrapped hlisted
        rw [listed_of_imp hlist]
      | wrapped hname hv hwrapped =>
        obtain rfl := ih _ he hwrapped (allListed_list_iff.mp hlisted _ List.mem_cons_self)
        rw [listed_of_mem hname ((isList_normalize v).trans hv)]

/-- **The normal form of a tree is the one tree with lists everywhere that comes of it by
wrapping.** -/
theorem eq_normalize_iff : u = normalize t ↔ IsWrapped t u ∧ AllListed u := by
  constructor
  · rintro rfl
    exact ⟨isWrapped_normalize t, allListed_normalize t⟩
  · rintro ⟨hwrapped, hlisted⟩
    exact hwrapped.eq_normalize hlisted

/-- The trees that stay as they are. -/
theorem normalize_eq_self_iff : normalize t = t ↔ AllListed t := by
  rw [eq_comm, eq_normalize_iff]
  exact and_iff_right (IsWrapped.refl t)

/-- The tree of a document is in normal form. -/
theorem allListed_of_parse {xml : String} (h : parse xml = .ok t) : AllListed t := by
  unfold parse at h
  split at h
  · cases h
  · split at h
    · obtain rfl := Except.ok.inj h
      exact allListed_normalize _
    · cases h
    · cases h

/-- **Normal form has lists everywhere, and comes by wrapping and nothing else**, so a tree stays
as it is exactly if it has lists everywhere, as it has after the first time. -/
theorem normalize_by_wrapping (t : Value) :
    AllListed (normalize t) ∧ IsWrapped t (normalize t) ∧
      (∀ u, u = normalize t ↔ IsWrapped t u ∧ AllListed u) ∧
      (normalize t = t ↔ AllListed t) ∧ normalize (normalize t) = normalize t :=
  ⟨allListed_normalize t, isWrapped_normalize t, fun _ => eq_normalize_iff, normalize_eq_self_iff,
    normalize_eq_self_iff.mpr (allListed_normalize t)⟩

example : normalize (.object [("Journeys", .list [.list [.object
      [("SubJourney", .object [("Precondition", .text "")])]]])]) =
    .object [("Journeys", .list [.list [.object
      [("SubJourney", .list [.object [("Precondition", .list [.text ""])]])]]])] := by rfl

end Tree
end Policy

end TrustFramework
