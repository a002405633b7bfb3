import TrustFramework.Proofs.Policy.Layout
import TrustFramework.Proofs.Policy.Writing
import TrustFramework.Proofs.Union

/-!
# The elements of a document in its tree

The tree of a document has one field for all children of a name: none of them, one, or a list.
What is looked up in the tree are therefore the children in the document, in their order, but for
one case: a child that is alone and says nothing is an empty text, and where the name is not one
that may repeat, an empty text is taken for no child at all.

## Main definitions

* `Element.named`, `Element.under` — the children of a name, and the elements under a path.
* `Element.isBare` — an element that says nothing.
* `Element.given?` — what an element gives for an attribute.
* `Tree.valueOf` — the value of an element in a tree.
* `Tree.overlooks` — the child of a name is taken for none.

## Main results

* `Tree.get?_valueOf`, `Tree.get?_attributeField_valueOf` — the fields of the value of an element.
* `Tree.named_valueOf` — **the children in a tree are those in the document, unless the one there
  is overlooked.**
* `Tree.children_valueOf` — so are the elements under a path.
-/

namespace TrustFramework

open Xml

namespace Xml
namespace Element

/-- The children of a name. -/
def named (name : String) (e : Element) : List Element :=
  e.children.filter fun child => bareName child.tag = name

/-- The elements under a path of names. -/
def under : List String → Element → List Element
  | [], e => [e]
  | name :: path, e => (e.named name).flatMap (under path)

/-- An element says nothing: it has no attributes and no children, and its text is blank. -/
def isBare (e : Element) : Bool :=
  e.attributes.isEmpty && e.children.isEmpty && Text.isBlankText e.text

/-- Whether an attribute goes by a simple name: it has no namespace, or one that no prefix is known
for, as for that of `xml:id`. -/
def goesBy (prefixes : Fields String) (name full : String) : Bool :=
  let (uri, bare) := splitClark full
  bare = name && (uri.isEmpty || !prefixes.has uri)

/-- What an element gives for an attribute, the last time that it does. -/
def given? (prefixes : Fields String) (name : String) (e : Element) : Option String :=
  ((e.attributes.filter fun a => goesBy prefixes name a.1).getLast?).map Prod.snd

/-- The elements under a longer path are children of those under the path. -/
theorem under_concat (path : List String) (last : String) (e : Element) :
    e.under (path ++ [last]) = (e.under path).flatMap (named last) := by
  induction path generalizing e with
  | nil => simp [under]
  | cons name path ih =>
    rw [List.cons_append, under, under, List.flatMap_assoc]
    exact List.flatMap_congr fun child _ => ih child

theorem IsSound.of_mem_named {e child : Element} (he : e.IsSound) {name : String}
    (h : child ∈ e.named name) : child.IsSound := by
  cases he with
  | mk _ _ _ children_ok => exact children_ok child (List.mem_of_mem_filter h)

theorem IsSound.of_mem_under {e descendant : Element} (he : e.IsSound) {path : List String}
    (h : descendant ∈ e.under path) : descendant.IsSound := by
  induction path generalizing e with
  | nil => exact (List.mem_singleton.mp h) ▸ he
  | cons name path ih =>
    obtain ⟨child, hchild, h⟩ := List.mem_flatMap.mp h
    exact ih (he.of_mem_named hchild) h

end Element
end Xml

namespace Text

theorem isEmpty_trim (s : String) : (trim s).isEmpty = isBlankText s := by
  rw [Bool.eq_iff_iff, isBlankText, List.all_eq_true, String.isEmpty_iff, ← String.toList_inj, trim,
    String.toList_ofList]
  refine ⟨fun h => ?_, trimmed_eq_nil⟩
  rw [String.toList_empty, trimmed, List.reverse_eq_nil_iff, List.dropWhile_eq_nil_iff] at h
  have hnil : s.toList.dropWhile isBlank = [] := by
    by_contra hne
    have hhead := List.head_dropWhile_not isBlank hne
    rw [h _ (List.mem_reverse.mpr (List.head_mem hne))] at hhead
    cases hhead
  exact List.dropWhile_eq_nil_iff.mp hnil

end Text

namespace Policy
namespace Tree

variable {prefixes : Prefixes} {name : String}

/-- The value of an element in the tree of a document. -/
def valueOf (prefixes : Prefixes) (e : Element) : Value := normalize (convert prefixes e)

/-- The child of a name is taken for none: there is one, it says nothing, and the name is not one
that may repeat. -/
def overlooks (name : String) (e : Element) : Bool :=
  !repeatable.contains name && match e.named name with
    | [child] => child.isBare
    | _ => false

theorem exists_of_overlooks {e : Element} (h : overlooks name e = true) :
    ∃ child, e.named name = [child] ∧ child.isBare = true := by
  unfold overlooks at h
  split at h
  · next child hchild => exact ⟨child, hchild, (Bool.and_eq_true_iff.mp h).2⟩
  · simp at h

/-! ### Children among fields -/

/-- A value put behind those of its name. -/
def joined : Option Value → Value → Value
  | none, v => v
  | some w, v => .list (itemsOf w ++ [v])

theorem get?_addChild (fields : Fields Value) (name : String) (v : Value) (other : String) :
    (addChild fields name v).get? other =
      if name = other then some (joined (fields.get? name) v) else fields.get? other := by
  have hset : addChild fields name v = fields.set name (joined (fields.get? name) v) := by
    cases hget : fields.get? name with
    | none => rw [addChild, hget]; rfl
    | some w => exact addChild_of_get? hget v
  rw [hset]
  split
  · next heq => rw [heq, Fields.get?_set_self]
  · next hne => exact Fields.get?_set_of_ne _ _ (Ne.symm hne)

theorem convertChildren_cons (e : Element) (es : List Element) (fields : Fields Value) :
    convertChildren prefixes (e :: es) fields =
      convertChildren prefixes es (addChild fields (bareName e.tag) (convert prefixes e)) := by
  cases e
  rw [convertChildren]
  rfl

/-- In the field of a name the children of that name are joined to what was there. -/
theorem get?_convertChildren (name : String) (es : List Element) (fields : Fields Value) :
    (convertChildren prefixes es fields).get? name =
      ((es.filter fun e => bareName e.tag = name).map (convert prefixes)).foldl
        (fun found v => some (joined found v)) (fields.get? name) := by
  induction es generalizing fields with
  | nil => rw [convertChildren]; rfl
  | cons e es ih =>
    rw [convertChildren_cons, ih, get?_addChild]
    by_cases hname : bareName e.tag = name
    · rw [List.filter_cons_of_pos (by simpa using hname), if_pos hname, hname]
      rfl
    · rw [List.filter_cons_of_neg (by simpa using hname), if_neg hname]

theorem foldl_joined_none {vs : List Value} (h : ∀ v ∈ vs, v.isList = false) (name : String) :
    vs.foldl (fun found v => some (joined found v)) none = (fieldOf name vs).get? name := by
  have hmore : ∀ vs items : List Value,
      vs.foldl (fun found v => some (joined found v)) (some (.list items)) =
        some (.list (items ++ vs)) := by
    intro vs
    induction vs with
    | nil => simp
    | cons v vs ih =>
      intro items
      rw [List.foldl_cons, joined, itemsOf, ih, List.append_assoc, List.singleton_append]
  obtain _ | ⟨v, _ | ⟨w, vs⟩⟩ := vs
  · rfl
  · simp [joined, fieldOf, Fields.get?]
  · have hfirst : itemsOf v = [v] := itemsOf_eq_singleton (h v List.mem_cons_self)
    rw [List.foldl_cons, List.foldl_cons, joined, joined, hfirst, hmore]
    simp [fieldOf, Fields.get?]

theorem get?_normalizeFields (fields : Fields Value) (name : String) :
    Fields.get? (normalizeFields fields) name =
      (fields.get? name).map fun v => listed name (normalize v) := by
  induction fields with
  | nil => rw [normalizeFields]; rfl
  | cons entry fields ih =>
    obtain ⟨n, v⟩ := entry
    rw [normalizeFields, Fields.get?, Fields.get?, ih]
    split
    · next heq => rw [heq]; rfl
    · rfl

/-! ### Values of elements -/

/-- An element is a text or has fields. -/
theorem valueOf_cases (prefixes : Prefixes) (e : Element) :
    (∃ s, valueOf prefixes e = .text s) ∨ ∃ fields, valueOf prefixes e = .object fields := by
  obtain ⟨tag, attributes, text, children, tail⟩ := e
  rw [valueOf, convert]
  split
  · refine Or.inl ⟨Text.trim text, ?_⟩
    rw [normalize] <;> simp
  · exact Or.inr ⟨_, by rw [normalize]⟩

theorem valueOf_of_isBare {e : Element} (h : e.isBare = true) (prefixes : Prefixes) :
    valueOf prefixes e = .text "" := by
  obtain ⟨tag, attributes, text, children, tail⟩ := e
  obtain ⟨hnothing, hblank⟩ := Bool.and_eq_true_iff.mp h
  rw [← Text.isEmpty_trim, String.isEmpty_iff] at hblank
  simp only [Element.attributes, Element.children, Element.text] at hnothing hblank
  rw [valueOf, convert, if_pos hnothing, hblank, normalize]
  all_goals simp

/-- **The value of an element is hollow exactly if the element says nothing.** -/
theorem isHollow_valueOf (prefixes : Prefixes) (e : Element) :
    (valueOf prefixes e).isHollow = e.isBare := by
  obtain ⟨tag, attributes, text, children, tail⟩ := e
  rw [valueOf, convert, Element.isBare, ← Text.isEmpty_trim]
  simp only [Element.attributes, Element.children, Element.text]
  split
  · next hnothing =>
    rw [hnothing, Bool.true_and, normalize]
    · rfl
    all_goals simp
  · next hsomething =>
    have hfields : convertChildren prefixes children (attributeFields prefixes attributes) ≠ [] := by
      intro hnil
      obtain ⟨hchildren, hattributes⟩ := eq_nil_of_convertChildren hnil
      have hempty : (attributeFields prefixes attributes).isEmpty = attributes.isEmpty :=
        isEmpty_attributeFields attributes
      refine hsomething ?_
      rw [← hempty, hattributes, hchildren]
      rfl
    rw [Bool.eq_false_iff.mpr hsomething, Bool.false_and, normalize, Value.isHollow,
      normalizeFields_eq_map, List.isEmpty_map, List.isEmpty_eq_false_iff]
    split
    · exact hfields
    · exact Fields.set_ne_nil _ _ _

theorem isList_valueOf (e : Element) : (valueOf prefixes e).isList = false := by
  obtain ⟨s, hvalue⟩ | ⟨fields, hvalue⟩ := valueOf_cases prefixes e <;> rw [hvalue] <;> rfl

/-- The fields of the value of an element, but for its text. -/
theorem get?_valueOf_of_ne {field : String} (hfield : field ≠ textField) (e : Element) :
    (valueOf prefixes e).get? field = (Fields.get? (convertChildren prefixes e.children
      (attributeFields prefixes e.attributes)) field).map fun v => listed field (normalize v) := by
  obtain ⟨tag, attributes, text, children, tail⟩ := e
  simp only [valueOf, convert, Element.children, Element.attributes]
  split
  · next hnothing =>
    obtain ⟨hattributes, hchildren⟩ := Bool.and_eq_true_iff.mp hnothing
    rw [List.isEmpty_iff.mp hattributes, List.isEmpty_iff.mp hchildren, convertChildren, normalize]
    · rfl
    all_goals simp
  · rw [normalize, Value.get?, get?_normalizeFields]
    split
    · rfl
    · rw [Fields.get?_set_of_ne _ _ hfield]

/-- **In the value of an element the children of a name are one field.** -/
theorem get?_valueOf (h : isElement name = true) (e : Element) : (valueOf prefixes e).get? name =
    Fields.get? (grouped name ((e.named name).map (valueOf prefixes))) name := by
  have hlists : ∀ v ∈ (e.named name).map (convert prefixes), v.isList = false := by
    intro v hv
    obtain ⟨child, -, rfl⟩ := List.mem_map.mp hv
    exact isList_convert prefixes child
  rw [get?_valueOf_of_ne (ne_textField_of_isElement h), get?_convertChildren,
    get?_attributeFields (Or.inl h), ← Element.named, foldl_joined_none hlists name,
    ← get?_normalizeFields, normalizeFields_fieldOf, List.map_map]
  rfl

theorem get?_asFields (attributes : Fields String) (name : String) :
    (asFields attributes).get? (attributeField name) = (attributes.get? name).map .text := by
  induction attributes with
  | nil => rfl
  | cons a attributes ih =>
    obtain ⟨n, s⟩ := a
    rw [Fields.get?]
    by_cases hn : n = name
    · simp [asFields, Fields.get?, hn]
    · have hfield : attributeField n ≠ attributeField name := fun h => hn (attributeField_inj.mp h)
      simpa [asFields, Fields.get?, hn, hfield] using ih

/-- The name of an attribute in a tree is a simple one if it goes by that. -/
theorem attributeName_eq_iff (h : ':' ∉ name.toList) (full : String) :
    attributeName prefixes full = name ↔ Element.goesBy prefixes name full = true := by
  simp only [attributeName, Element.goesBy, Fields.has_eq_isSome]
  generalize splitClark full = parts
  obtain ⟨uri, bare⟩ := parts
  dsimp only
  cases huri : uri.isEmpty with
  | true => simp
  | false =>
    cases prefixes.get? uri with
    | none => simp
    | some pre =>
      have hcolon : pre ++ ":" ++ bare ≠ name := by
        rintro rfl
        exact h (by simp)
      simpa using hcolon

/-- **In the value of an element an attribute is what the element gives for it last.** -/
theorem get?_attributeField_valueOf {e : Element} (he : e.IsSound) (h : ':' ∉ name.toList) :
    (valueOf prefixes e).get? (attributeField name) = (e.given? prefixes name).map .text := by
  have hfield : attributeField name ≠ textField := by
    intro heq
    have hlist := congrArg String.toList heq
    simp [attributeField, textField] at hlist
  -- no child has the name of the field
  have hnone : (e.children.filter fun child => bareName child.tag = attributeField name) = [] := by
    cases he with
    | mk _ _ _ children_ok =>
      refine List.filter_eq_nil_iff.mpr fun child hchild htag => ?_
      have hname := isElement_of_isName (children_ok child hchild).isName
      rw [of_decide_eq_true htag, isElement_attributeField] at hname
      cases hname
  have hgiven : (named prefixes e.attributes).get? name = e.given? prefixes name := by
    rw [named, Fields.ofPairs, Fields.get?_update, Fields.get?_nil, Option.or_none, Fields.last?,
      List.filter_map, List.getLast?_map, Option.map_map, Element.given?]
    have hnames : e.attributes.filter ((fun entry : String × String => decide (entry.1 = name)) ∘
        fun a => (attributeName prefixes a.1, a.2)) =
          e.attributes.filter fun a => Element.goesBy prefixes name a.1 :=
      List.filter_congr fun a _ => by
        rw [Bool.eq_iff_iff, ← attributeName_eq_iff h]
        exact decide_eq_true_iff
    rw [hnames]
    rfl
  rw [get?_valueOf_of_ne hfield, get?_convertChildren, hnone, attributeFields_eq, List.map_nil,
    List.foldl_nil, get?_asFields, hgiven, Option.map_map]
  refine Option.map_congr fun s _ => ?_
  simp [listed_of_isElement_eq_false (isElement_attributeField name), normalize]

/-! ### Elements under a path -/

/-- Alone among children, an element that says nothing is no child. -/
theorem asList_valueOf (e : Element) : Node.asList (valueOf prefixes e) =
    if e.isBare then [] else [valueOf prefixes e] := by
  split
  · next hbare => rw [valueOf_of_isBare hbare]; rfl
  · next hsolid =>
    rw [← isHollow_valueOf prefixes] at hsolid
    obtain ⟨s, hvalue⟩ | ⟨fields, hvalue⟩ := valueOf_cases prefixes e
    · rw [hvalue] at hsolid ⊢
      exact if_neg hsolid
    · rw [hvalue]
      rfl

/-- **The children in a tree are those in the document, unless the one there is overlooked.** -/
theorem named_valueOf (h : isElement name = true) (e : Element) :
    Node.named name (valueOf prefixes e) =
      if overlooks name e then [] else (e.named name).map (valueOf prefixes) := by
  rw [named_eq_asList, get?_valueOf h, overlooks]
  match e.named name with
  | [] => simp [grouped, Node.asList]
  | [child] =>
    have hgrouped : Fields.get? (grouped name ([child].map (valueOf prefixes))) name =
        some (listed name (valueOf prefixes child)) := by simp [grouped, Fields.get?]
    rw [hgrouped, Option.getD_some, listed, isList_valueOf]
    cases repeatable.contains name with
    | true => simp [Node.asList]
    | false => simpa using asList_valueOf child
  | first :: second :: rest => simp [grouped, Fields.get?, Node.asList]

/-- The elements under a path are those in the document, unless they are overlooked. -/
theorem children_valueOf (e : Element) {path : List String} {last : String}
    (hpath : ∀ name ∈ path, isElement name = true) :
    Node.children (valueOf prefixes e) (path ++ [last]) =
      (e.under path).flatMap fun parent => Node.named last (valueOf prefixes parent) := by
  induction path generalizing e with
  | nil =>
    rw [List.nil_append, children_cons, Element.under, List.flatMap_singleton]
    simp [Node.children]
  | cons name path ih =>
    rw [List.forall_mem_cons] at hpath
    rw [List.cons_append, children_cons, named_valueOf hpath.1, Element.under, List.flatMap_assoc]
    split
    · next hover =>
      -- below the child that is overlooked there is nothing
      obtain ⟨child, hchild, hbare⟩ := exists_of_overlooks hover
      rw [hchild, List.flatMap_singleton, ← ih child hpath.2, valueOf_of_isBare hbare]
      exact (children_of_containerFields_eq_nil (by simp) rfl).symm
    · rw [List.flatMap_map]
      exact List.flatMap_congr fun child _ => ih child hpath.2

end Tree
end Policy
end TrustFramework
