import TrustFramework.Proofs.Policy.Elements
import TrustFramework.Proofs.Policy.RoundTrip

/-!
# Conversion undoes building

The element that is built of a value is converted to that value, and the indentation that is put
into the element has no part in it.  That holds of the values that conversion makes, and those
are told by their shape: a text without blanks at its ends, or fields in any order, of which each
holds an attribute, a text, one value of this shape or a list of at least two.

## Main definitions

* `IsBare` — a name stands for no namespace.
* `IsShape` — some fields are those of an element.
* `IsConverted` — a value has the shape that conversion gives it, and so has all that is below.

## Main results

* `convert_indented` — **indentation has no part in the value of an element.**
* `IsConverted.same_convert_build` — **what is built of a value is converted to it.**
* `isConverted_convert` — **the value of an element that was read has the shape.**
-/

namespace TrustFramework

open Xml

/-! ### Indentation -/

namespace Xml
namespace Element

/-- Indentation takes the place of what is trimmed. -/
theorem trim_fillBlank_lineBreak (s : String) (level : Nat) :
    Text.trim (fillBlank s (lineBreak level)) = Text.trim s := by
  rw [fillBlank]
  split
  · next h =>
    have hbreak := isBlankText_lineBreak level
    rw [← Text.isEmpty_trim, String.isEmpty_iff] at h hbreak
    rw [hbreak, h]
  · rfl

mutual
/-- Trimming takes indentation away again. -/
theorem trimmed_indentedAt : ∀ (e : Element) (level : Nat),
    (e.indentedAt level).trimmed = e.trimmed
  | mk tag attributes text [] tail, level => by rw [indentedAt]
  | mk tag attributes text (child :: rest) tail, level => by
    rw [indentedAt, trimmed, trimmed, trim_fillBlank_lineBreak, trimmedAll_indentedChildren]

theorem trimmedAll_indentedChildren : ∀ (es : List Element) (level : Nat),
    trimmedAll (indentedChildren level es) = trimmedAll es
  | [], level => by rw [indentedChildren]
  | [e], level => by
    rw [indentedChildren, trimmedAll, trimmed_withTail, trimmed_indentedAt, trimmedAll]
    rfl
  | e :: next :: rest, level => by
    rw [indentedChildren, trimmedAll, trimmed_withTail, trimmed_indentedAt,
      trimmedAll_indentedChildren]
    · rfl
    · simp
end

end Element
end Xml

namespace Policy
namespace Tree

variable {prefixes : Prefixes} {fields : Fields Value} {name : String} {v : Value}

/-- **Indentation has no part in the value of an element.** -/
theorem convert_indented (prefixes : Prefixes) (e : Element) :
    convert prefixes e.indented = convert prefixes e := by
  rw [← convert_trimmed, Element.indented, Element.trimmed_indentedAt, convert_trimmed]

/-! ### The shape of converted values -/

/-- A name stands for no namespace: taken apart, it is the bare name. -/
def IsBare (name : String) : Prop := splitClark name = ("", name)

/-- Fields as an element has them, in any order: no name comes twice, attributes are texts, the
text is not empty and has no blanks at its ends, and the children of a name are in a list exactly
if there are two of them or more. -/
structure IsShape (fields : Fields Value) : Prop where
  once : fields.names.Nodup
  attributes : ∀ e ∈ fields, ∀ name, attributeOf? e.1 = some name →
    IsBare name ∧ ∃ s, e.2 = .text s
  text : ∀ e ∈ fields, e.1 = textField → ∃ s, e.2 = .text s ∧ s ≠ "" ∧ Text.trim s = s
  names : ∀ e ∈ childrenAmong fields, IsBare e.1
  lists : ∀ e ∈ childrenAmong fields, e.2.isList = true → 2 ≤ (itemsOf e.2).length

/-- A value has the shape that conversion gives it: a text without blanks at its ends, or the
fields of an element that has attributes or children, whose values have this shape. -/
inductive IsConverted : Value → Prop
  | text {s : String} (trimmed : Text.trim s = s) : IsConverted (.text s)
  | object {fields : Fields Value} (shape : IsShape fields)
      (solid : ∃ e ∈ fields, e.1 ≠ textField)
      (items : ∀ e ∈ childrenAmong fields, ∀ v ∈ itemsOf e.2, IsConverted v) :
      IsConverted (.object fields)

instance (name : String) : Decidable (IsBare name) :=
  inferInstanceAs (Decidable (splitClark name = ("", name)))

theorem IsBare.bareName (h : IsBare name) : bareName name = name := congrArg Prod.snd h

theorem IsBare.attributeName (h : IsBare name) : attributeName prefixes name = name := by
  rw [Tree.attributeName, h]
  rfl

theorem isBare_of_isWord (h : isWord name.toList = true) : IsBare name := by
  have hsplit : splitClark (clark "" name) = ("", name) :=
    splitClark_clark (by decide) (head?_ne_of_isWord h)
  exact hsplit

/-! ### Fields in order -/

/-- The attributes, the children and the text among fields. -/
def layoutOf (fields : Fields Value) : Layout where
  attributes := attributesAmong fields
  children := childrenAmong fields
  text := textAmong fields

theorem IsShape.of_cons {e : String × Value} (h : IsShape (e :: fields)) : IsShape fields where
  once := (List.nodup_cons.mp h.once).2
  attributes := (List.forall_mem_cons.mp h.attributes).2
  text := (List.forall_mem_cons.mp h.text).2
  names e' he' := h.names e' (((List.sublist_cons_self e fields).filter _).subset he')
  lists e' he' := h.lists e' (((List.sublist_cons_self e fields).filter _).subset he')

theorem eq_attributeField {field : String} (h : attributeOf? field = some name) :
    field = attributeField name := by
  unfold attributeOf? at h
  split at h
  · next cs heq =>
    cases h
    have hmark : "@_".toList = ['@', '_'] := rfl
    simp [← String.toList_inj, heq, attributeField, hmark]
  · cases h

theorem textAmong_eq_empty (h : textField ∉ fields.names) : textAmong fields = "" := by
  have hne : ∀ e ∈ fields, e.1 ≠ textField := fun e he htext =>
    h (htext ▸ List.mem_map_of_mem (f := Prod.fst) he)
  rw [← List.append_nil fields, textAmong_append_of_ne hne]
  rfl

/-- **The fields of an element are its attributes, its children and its text.** -/
theorem IsShape.perm_fields (h : IsShape fields) : (layoutOf fields).fields.Perm fields := by
  induction fields with
  | nil => exact .nil
  | cons e fields ih =>
    obtain ⟨field, v⟩ := e
    have hrest := ih h.of_cons
    cases hfield : attributeOf? field with
    | some name =>
      obtain ⟨-, s, rfl⟩ : IsBare name ∧ ∃ s, v = .text s :=
        h.attributes _ List.mem_cons_self name hfield
      obtain rfl := eq_attributeField hfield
      have hlayout : layoutOf ((attributeField name, .text s) :: fields) =
          { layoutOf fields with attributes := (name, s) :: attributesAmong fields } := by
        simp [layoutOf, attributesAmong, attributeOf?_attributeField, childrenAmong,
          isElement_attributeField, textAmong, attributeField_ne_textField]
      rw [hlayout]
      exact hrest.cons _
    | none =>
      by_cases htext : field = textField
      · obtain ⟨s, rfl, hsolid, -⟩ : ∃ s, v = .text s ∧ s ≠ "" ∧ Text.trim s = s :=
          h.text _ List.mem_cons_self htext
        subst htext
        have hnone : textAmong fields = "" :=
          textAmong_eq_empty (List.nodup_cons.mp h.once).1
        have hlayout : layoutOf ((textField, .text s) :: fields) =
            { layoutOf fields with text := s } := by
          simp [layoutOf, attributesAmong, attributeOf?_textField, childrenAmong,
            isElement_textField, textAmong]
        have hfields : (layoutOf ((textField, .text s) :: fields)).fields =
            (layoutOf fields).fields ++ [(textField, .text s)] := by
          rw [hlayout]
          simp [Layout.fields, layoutOf, textFields, hsolid, hnone]
        rw [hfields]
        exact (List.perm_append_singleton _ _).trans (hrest.cons _)
      · have helement : isElement field = true := by
          simp [isElement, isAttribute, hfield, htext]
        have hlayout : layoutOf ((field, v) :: fields) =
            { layoutOf fields with children := (field, v) :: childrenAmong fields } := by
          simp [layoutOf, attributesAmong, hfield, childrenAmong, helement, textAmong, htext]
        rw [hlayout]
        refine .trans ?_ (hrest.cons _)
        simp only [Layout.fields, List.append_assoc, List.cons_append]
        exact List.perm_middle

theorem IsShape.nodup_names_attributesAmong (h : IsShape fields) :
    (attributesAmong fields).names.Nodup := by
  have hnames : (layoutOf fields).fields.names.Nodup :=
    (h.perm_fields.map Prod.fst).nodup_iff.mpr h.once
  rw [Layout.names_fields] at hnames
  exact (List.nodup_append.mp hnames).1.of_map _

theorem nodup_names_childrenAmong (h : fields.names.Nodup) : (childrenAmong fields).names.Nodup :=
  h.sublist (List.filter_sublist.map Prod.fst)

theorem IsShape.isBare_of_mem_attributesAmong (h : IsShape fields) :
    ∀ a ∈ attributesAmong fields, IsBare a.1 := by
  intro a ha
  have hmem : (attributeField a.1, Value.text a.2) ∈ (layoutOf fields).fields :=
    List.mem_append_left _ (List.mem_append_left _ (List.mem_map.mpr ⟨a, ha, rfl⟩))
  exact (h.attributes _ (h.perm_fields.subset hmem) a.1 (attributeOf?_attributeField a.1)).1

theorem isElement_of_mem_childrenAmong : ∀ e ∈ childrenAmong fields, isElement e.1 = true :=
  fun _ he => (List.mem_filter.mp he).2

/-! ### Elements whose attributes and children are known -/

/-- Attributes with bare names keep them. -/
theorem attributeFields_of_isBare {attributes : Fields String} (h : ∀ a ∈ attributes, IsBare a.1)
    (honce : attributes.names.Nodup) :
    attributeFields prefixes attributes = asFields attributes := by
  have hnames : (attributes.map fun a => (attributeName prefixes a.1, a.2)) = attributes := by
    conv_rhs => rw [← List.map_id attributes]
    exact List.map_congr_left fun a ha => Prod.ext (h a ha).attributeName rfl
  rw [attributeFields_eq, named, hnames, Fields.ofPairs_of_nodup honce]

/-- The value of an element, from its attributes, its children and its text. -/
theorem convert_of_layout {tag text tail : String} {attributes : Fields String}
    {es : List Element} {l : Layout} (hattributes : attributeFields prefixes attributes =
      asFields l.attributes) (hchildren : convertChildren prefixes es (asFields l.attributes) =
        asFields l.attributes ++ l.children) (htext : Text.trim text = l.text)
    (helement : ∀ e ∈ l.children, isElement e.1 = true) :
    convert prefixes (.mk tag attributes text es tail) =
      if attributes.isEmpty && es.isEmpty then .text l.text else .object l.fields := by
  have hnone : (asFields l.attributes ++ l.children).get? textField = none := by
    have := Layout.get?_fields_textField (l := { l with text := "" }) helement
    simpa [Layout.fields, textFields] using this
  rw [convert, hattributes, hchildren, htext]
  split
  · rfl
  · rw [Layout.fields, textFields]
    split
    · rw [List.append_nil]
    · exact congrArg Value.object (Fields.set_of_get?_eq_none hnone _)

/-! ### What is built is converted to what it was built of -/

/-- What stands in a field once its elements are built and converted. -/
def rebuilt (prefixes : Prefixes) (name : String) : Value → Value
  | .list items => .list (items.map fun v => convert prefixes (build name v))
  | v => convert prefixes (build name v)

theorem fieldOf_rebuilt (h : v.isList = true → 2 ≤ (itemsOf v).length) :
    fieldOf name (((itemsOf v).map (build name)).map (convert prefixes)) =
      [(name, rebuilt prefixes name v)] := by
  cases v with
  | list items =>
    match items, h rfl with
    | v :: w :: items, _ => simp [itemsOf, fieldOf, rebuilt]
  | _ => rfl

theorem tag_build (name : String) (v : Value) : (build name v).tag = name := by
  cases v with
  | object fields => rw [build_object]; rfl
  | _ => rw [build_atom name rfl]; rfl

/-- The elements of each field make that field again. -/
theorem convertChildren_build {children : Fields Value} (hnames : ∀ e ∈ children, IsBare e.1)
    (honce : children.names.Nodup)
    (hlists : ∀ e ∈ children, e.2.isList = true → 2 ≤ (itemsOf e.2).length)
    {before : Fields Value} (hbefore : ∀ e ∈ children, before.get? e.1 = none) :
    convertChildren prefixes (children.flatMap fun e => (itemsOf e.2).map (build e.1)) before =
      before ++ children.map fun e => (e.1, rebuilt prefixes e.1 e.2) := by
  induction children generalizing before with
  | nil => rw [List.flatMap_nil, convertChildren, List.map_nil, List.append_nil]
  | cons e children ih =>
    obtain ⟨name, v⟩ := e
    rw [List.forall_mem_cons] at hnames hlists hbefore
    obtain ⟨hname, honce⟩ : name ∉ Fields.names children ∧ (Fields.names children).Nodup :=
      List.nodup_cons.mp honce
    have hbare : ∀ e ∈ (itemsOf v).map (build name), bareName e.tag = name := by
      intro e he
      obtain ⟨w, -, rfl⟩ := List.mem_map.mp he
      rw [tag_build]
      exact hnames.1.bareName
    -- the names that follow are new still
    have hnext : ∀ e ∈ children,
        Fields.get? (before ++ [(name, rebuilt prefixes name v)]) e.1 = none := by
      intro e he
      have hne : name ≠ e.1 := fun heq => hname (heq ▸ List.mem_map_of_mem (f := Prod.fst) he)
      rw [Fields.get?_append_of_eq_none (hbefore.2 e he), Fields.get?, if_neg hne, Fields.get?_nil]
    rw [List.flatMap_cons, convertChildren_append, convertChildren_of_bareName hbefore.1 hbare,
      fieldOf_rebuilt hlists.1, ih hnames.2 honce hlists.2 hnext, List.append_assoc]
    rfl

/-- A layout once its children are built and converted. -/
def Layout.rebuilt (prefixes : Prefixes) (l : Layout) : Layout where
  attributes := l.attributes
  children := l.children.map fun e => (e.1, Tree.rebuilt prefixes e.1 e.2)
  text := l.text

theorem IsShape.trim_textAmong (h : IsShape fields) :
    Text.trim (textAmong fields) = textAmong fields := by
  cases hempty : (textAmong fields).isEmpty with
  | true =>
    rw [String.isEmpty_iff.mp hempty]
    rfl
  | false =>
    have hmem : (textField, Value.text (textAmong fields)) ∈ (layoutOf fields).fields := by
      refine List.mem_append_right _ ?_
      simp [layoutOf, textFields, hempty]
    obtain ⟨s, hs, -, htrim⟩ := h.text _ (h.perm_fields.subset hmem) rfl
    cases hs
    exact htrim

/-- **What is built of fields is converted to their layout, with its children rebuilt.** -/
theorem convert_build_object (h : IsShape fields) (solid : ∃ e ∈ fields, e.1 ≠ textField)
    (name : String) : convert prefixes (build name (.object fields)) =
      .object ((layoutOf fields).rebuilt prefixes).fields := by
  have helement : ∀ e ∈ childrenAmong fields, isElement e.1 = true := isElement_of_mem_childrenAmong
  have hbefore : ∀ e ∈ childrenAmong fields,
      (asFields (attributesAmong fields)).get? e.1 = none := fun e he =>
    get?_asFields_of_ne (attributeOf?_eq_none_of_isElement (helement e he))
  have hattributes : attributeFields prefixes (attributesAmong fields) =
      asFields (attributesAmong fields) :=
    attributeFields_of_isBare h.isBare_of_mem_attributesAmong h.nodup_names_attributesAmong
  have hchildren : convertChildren prefixes ((childrenAmong fields).flatMap fun e =>
      (itemsOf e.2).map (build e.1)) (asFields (attributesAmong fields)) =
        asFields (attributesAmong fields) ++ ((layoutOf fields).rebuilt prefixes).children :=
    convertChildren_build h.names (nodup_names_childrenAmong h.once) h.lists hbefore
  have hsolid : ¬ ((attributesAmong fields).isEmpty && ((childrenAmong fields).flatMap fun e =>
      (itemsOf e.2).map (build e.1)).isEmpty) = true := by
    rw [Bool.and_eq_true, List.isEmpty_iff, List.isEmpty_iff]
    rintro ⟨hnone, hbuilt⟩
    -- without attributes and elements the text would stand alone
    rw [hbuilt, convertChildren, List.self_eq_append_right, Layout.rebuilt,
      List.map_eq_nil_iff] at hchildren
    have hlayout : (layoutOf fields).fields = textFields (textAmong fields) := by
      rw [Layout.fields, hchildren]
      simp [layoutOf, hnone, asFields]
    obtain ⟨e, he, hne⟩ := solid
    have hmem := h.perm_fields.symm.subset he
    rw [hlayout] at hmem
    exact hne (congrArg Prod.fst (eq_of_mem_textFields hmem))
  rw [build_object, convert_of_layout (l := (layoutOf fields).rebuilt prefixes) hattributes
    hchildren h.trim_textAmong, if_neg hsolid]
  intro e' he'
  obtain ⟨e, he, rfl⟩ := List.mem_map.mp he'
  exact helement e he

/-- A field that is rebuilt is the same if its items are. -/
theorem same_rebuilt (h : ∀ w ∈ itemsOf v, ∀ name, (convert prefixes (build name w)).same w = true)
    (name : String) : (rebuilt prefixes name v).same v = true := by
  cases v with
  | list items =>
    refine Value.same_list_iff.mpr (List.forall₂_map_left_iff.mpr ?_)
    exact List.forall₂_same.mpr fun w hw => h w hw name
  | _ => exact h _ List.mem_cons_self name

/-- **What is built of a value of the shape is converted to that value.** -/
theorem IsConverted.same_convert_build (h : IsConverted v) (name : String) :
    (convert prefixes (build name v)).same v = true := by
  induction h generalizing name with
  | @text s trimmed =>
    have hbuild : convert prefixes (build name (.text s)) = .text (Text.trim s) := by
      rw [build_atom name rfl, convert]
      rfl
    rw [hbuild]
    exact Value.same_text_iff.mpr trimmed
  | @object fields shape solid items ih =>
    have hperm := shape.perm_fields
    -- what stands in the layout stands among the fields
    have hget : ∀ e ∈ (layoutOf fields).fields, fields.get? e.1 = some e.2 :=
      fun e he => Fields.get?_of_mem shape.once (hperm.subset he)
    rw [convert_build_object shape solid]
    refine Value.same_object_iff.mpr ⟨?_, ?_⟩
    · rw [← hperm.length_eq]
      simp [Layout.fields, Layout.rebuilt]
    · refine List.forall_mem_append.mpr ⟨List.forall_mem_append.mpr ⟨?_, ?_⟩, ?_⟩ <;> intro e' he'
      · refine ⟨e'.2, hget e' (List.mem_append_left _ (List.mem_append_left _ he')), ?_⟩
        obtain ⟨a, -, rfl⟩ := List.mem_map.mp he'
        exact Value.same_text_iff.mpr rfl
      · obtain ⟨e, he, rfl⟩ := List.mem_map.mp he'
        exact ⟨e.2, hget e (List.mem_append_left _ (List.mem_append_right _ he)),
          same_rebuilt (ih e he) e.1⟩
      · refine ⟨e'.2, hget e' (List.mem_append_right _ he'), ?_⟩
        rw [eq_of_mem_textFields he']
        exact Value.same_text_iff.mpr rfl

/-! ### What is converted has the shape -/

/-- A list that gathering makes has two items or more. -/
theorem IsGathered.two_le_length {P : Value → Prop} {children : Fields Value}
    (h : IsGathered P children) {e : String × Value} (he : e ∈ children)
    (hlist : e.2.isList = true) : 2 ≤ (itemsOf e.2).length := by
  obtain ⟨name, v⟩ := e
  have hshape : fieldOf name (itemsOf v) = [(name, v)] := h.shape _ he
  have hitems : ∀ w ∈ itemsOf v, w.isList = false := fun w hw => (h.items _ he w hw).1
  dsimp only at hlist ⊢
  generalize itemsOf v = items at hshape hitems
  match items, hshape with
  | [w], hshape =>
    cases hshape
    rw [hitems v List.mem_cons_self] at hlist
    cases hlist
  | w :: w' :: items, _ => simp

/-- Gathered children have the shape of fields, along with attributes and a text. -/
theorem IsGathered.isShape {P : Value → Prop} {l : Layout} (h : IsGathered P l.children)
    (hbare : ∀ a ∈ l.attributes, IsBare a.1) (honce : l.attributes.names.Nodup)
    (htrim : Text.trim l.text = l.text) : IsShape l.fields := by
  have helement : ∀ e ∈ l.children, isElement e.1 = true :=
    fun e he => isElement_of_isName (h.names e he)
  have hnames : l.fields.names.Nodup := Layout.nodup_names_fields helement honce h.once
  have hchildren : childrenAmong l.fields = l.children := Layout.childrenAmong_fields helement
  refine
    { once := hnames
      attributes := fun e he name hname => ?_
      text := fun e he htext => ?_
      names := fun e he => ?_
      lists := fun e he hlist => ?_ }
  · rw [Layout.fields_eq] at he
    rcases List.mem_append.mp he with he | he
    · obtain ⟨a, ha, rfl⟩ := List.mem_map.mp he
      rw [attributeOf?_attributeField, Option.some.injEq] at hname
      exact ⟨hname ▸ hbare a ha, a.2, rfl⟩
    · rw [Layout.attributeOf?_content helement e he] at hname
      cases hname
  · have hget := Fields.get?_of_mem hnames he
    rw [htext, Layout.get?_fields_textField helement] at hget
    split at hget
    · cases hget
    · next hsolid =>
      rw [String.isEmpty_iff] at hsolid
      exact ⟨l.text, (Option.some.inj hget).symm, hsolid, htrim⟩
  · rw [hchildren] at he
    exact isBare_of_isWord (isWord_of_isName (h.names e he))
  · rw [hchildren] at he
    exact h.two_le_length he hlist

/-- **The value of an element that was read has the shape.** -/
theorem isConverted_convert (hprefixes : ∀ p ∈ prefixes, isWord p.2.toList = true) {e : Element}
    (he : e.IsSound) : IsConverted (convert prefixes e) := by
  induction he with
  | @mk tag attributes text es tail _ hattributes _ hes ih =>
    have hbefore : ∀ name, isElement name = true →
        (attributeFields prefixes attributes).get? name = none :=
      fun name hname => get?_attributeFields (Or.inl hname)
    obtain ⟨children, hgathered, hchildren⟩ :=
      exists_convertChildren_eq (fun e he => (hes e he).isName) ih hbefore .nil
    rw [List.append_nil] at hchildren
    let l : Layout := ⟨named prefixes attributes, children, Text.trim text⟩
    have hfields : attributeFields prefixes attributes = asFields l.attributes :=
      attributeFields_eq prefixes attributes
    have hbare : ∀ a ∈ l.attributes, IsBare a.1 := fun a ha =>
      isBare_of_isWord (isGiven_of_mem_named hprefixes hattributes a ha).1
    have helement : ∀ e ∈ l.children, isElement e.1 = true :=
      fun e he => isElement_of_isName (hgathered.names e he)
    rw [convert_of_layout (l := l) hfields (hfields ▸ hchildren) rfl helement]
    split
    · exact .text (Text.trim_trim text)
    · next hsolid =>
      -- something was gathered, since the element has attributes or children
      have hne : asFields l.attributes ++ l.children ≠ [] := by
        rw [← hfields, ← hchildren]
        intro hnil
        obtain ⟨rfl, hnone⟩ := eq_nil_of_convertChildren hnil
        have hempty : (attributeFields prefixes attributes).isEmpty = attributes.isEmpty :=
          isEmpty_attributeFields attributes
        rw [hnone] at hempty
        exact hsolid (by rw [← hempty]; rfl)
      obtain ⟨e, he⟩ := List.exists_mem_of_ne_nil _ hne
      refine .object (IsGathered.isShape hgathered hbare (Fields.nodup_names_ofPairs _)
        (Text.trim_trim text)) ⟨e, List.mem_append_left _ he, Layout.ne_textField helement e he⟩ ?_
      rw [Layout.childrenAmong_fields helement]
      exact fun e he v hv => (hgathered.items e he v hv).2

/-- The value of the root of every document has the shape. -/
theorem isConverted_of_read {xml : String} {document : Xml.Document}
    (h : Xml.Document.read xml = .ok document) :
    IsConverted (convert (prefixesOf document.declared) document.root) := by
  obtain ⟨hroot, hdeclared⟩ := Xml.Document.isSound_of_read h
  exact isConverted_convert (isWord_of_mem_prefixesOf fun d hd => (hdeclared d hd).1) hroot

/-! ### Building and converting -/

/-- **The indented element of a value of the shape is converted to that value, and every value
that a document is converted to has the shape.** -/
theorem convert_indented_build :
    (∀ (prefixes : Prefixes) (name : String) (v : Value), IsConverted v →
      (convert prefixes (build name v).indented).same v = true) ∧
    ∀ (xml : String) (document : Xml.Document), Xml.Document.read xml = .ok document →
      IsConverted (convert (prefixesOf document.declared) document.root) := by
  refine ⟨fun prefixes name v hv => ?_, fun _ _ h => isConverted_of_read h⟩
  rw [convert_indented]
  exact hv.same_convert_build name

/-- A step of two exchanges, its text in front. -/
def exchangesStep : Value :=
  .object [(textField, .text "go"), ("@_Order", .text "1"),
    ("ClaimsExchange", .list [.text "A", .text "B"])]

theorem isConverted_exchangesStep : IsConverted exchangesStep := by
  refine .object
    { once := by decide
      attributes := ?_
      text := ?_
      names := by decide
      lists := by decide } ⟨_, List.mem_cons_of_mem _ List.mem_cons_self, by decide⟩ ?_
  · simp only [List.forall_mem_cons]
    exact ⟨by simp [attributeOf?, textField],
      fun name h => ⟨by cases h; decide, "1", rfl⟩, by simp [attributeOf?], by simp⟩
  · simp only [List.forall_mem_cons]
    exact ⟨fun _ => ⟨"go", rfl, by decide, by decide⟩, by simp [textField], by simp [textField],
      by simp⟩
  · have hchildren : childrenAmong [(textField, .text "go"), ("@_Order", .text "1"),
        ("ClaimsExchange", .list [.text "A", .text "B"])] =
          [("ClaimsExchange", .list [.text "A", .text "B"])] := rfl
    rw [hchildren, List.forall_mem_singleton, itemsOf, List.forall_mem_cons,
      List.forall_mem_singleton]
    exact ⟨.text (by decide), .text (by decide)⟩

/-- Such a step comes back from its element. -/
theorem convert_indented_build_exchangesStep : IsConverted exchangesStep ∧
    (convert [] (build "OrchestrationStep" exchangesStep).indented).same exchangesStep = true :=
  ⟨isConverted_exchangesStep,
    convert_indented_build.1 [] "OrchestrationStep" exchangesStep isConverted_exchangesStep⟩

end Tree
end Policy
end TrustFramework
