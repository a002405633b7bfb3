import TrustFramework.Proofs.Policy.Rereading
import TrustFramework.Proofs.Xml.Documents

/-!
# How reading lays a tree out

The fields of a node that was read stand in a fixed order: first its attributes, then its
children, then its text, if there is any.  No name comes twice, a child stands alone or in a list
as its name and number ask for, and texts have no blanks at their ends.  What is read can also
be written again.

## Main definitions

* `Layout` — attributes, children and a text, and the fields of a node made of them.
* `IsTidy` — a node is laid out as reading does it, and so are the nodes below.

## Main results

* `IsTidy.isWritable` — a tidy node can be written.
* `isTidy_normalize_convert` — **the value of an element that was read is tidy.**
* `exists_layout_of_parse` — **so is the tree of every document.**
-/

namespace TrustFramework

open Xml

namespace Fields

variable {α : Type}

/-- New names go to the end, one after the other. -/
theorem update_eq_append {fields more : Fields α} (hmore : more.names.Nodup)
    (h : ∀ e ∈ more, fields.get? e.1 = none) : fields.update more = fields ++ more := by
  unfold update
  induction more generalizing fields with
  | nil => simp
  | cons e more ih =>
    obtain ⟨hfirst, hrest⟩ := List.forall_mem_cons.mp h
    obtain ⟨hname, hmore⟩ := List.nodup_cons.mp hmore
    rw [List.foldl_cons, set_of_get?_eq_none hfirst, ih hmore, List.append_assoc,
      List.singleton_append]
    intro e' he'
    have hne : e.1 ≠ e'.1 := fun heq => hname (heq ▸ List.mem_map_of_mem (f := Prod.fst) he')
    rw [get?_append_of_eq_none (hrest e' he'), get?, if_neg hne, get?_nil]

theorem nodup_names_ofPairs (pairs : List (String × α)) : (ofPairs pairs).names.Nodup :=
  nodup_names_update List.nodup_nil

theorem ofPairs_of_nodup {pairs : List (String × α)} (h : Fields.names pairs |>.Nodup) :
    ofPairs pairs = pairs := by
  rw [ofPairs, update_eq_append h (by simp), List.nil_append]

theorem mem_update {fields more : Fields α} {e : String × α} (h : e ∈ fields.update more) :
    e ∈ fields ∨ e ∈ more := by
  unfold update at h
  induction more generalizing fields with
  | nil => exact Or.inl h
  | cons pair pairs ih =>
    rcases ih h with h | h
    · rcases mem_set h with h | rfl
      · exact Or.inl h
      · exact Or.inr List.mem_cons_self
    · exact Or.inr (List.mem_cons_of_mem _ h)

end Fields

namespace Policy
namespace Tree

/-! ### Attributes as fields -/

/-- The fields that hold some attributes. -/
def asFields (attributes : Fields String) : Fields Value :=
  attributes.map fun a => (attributeField a.1, .text a.2)

theorem attributeOf?_attributeField (name : String) :
    attributeOf? (attributeField name) = some name := by
  simp [attributeOf?, attributeField]

theorem attributeField_inj {name other : String} :
    attributeField name = attributeField other ↔ name = other := by
  refine ⟨fun h => ?_, congrArg _⟩
  have hsome := congrArg attributeOf? h
  rwa [attributeOf?_attributeField, attributeOf?_attributeField, Option.some.injEq] at hsome

theorem asFields_set (attributes : Fields String) (name s : String) :
    asFields (attributes.set name s) = (asFields attributes).set (attributeField name) (.text s) := by
  induction attributes with
  | nil => rfl
  | cons a attributes ih =>
    obtain ⟨n, t⟩ := a
    by_cases hn : n = name
    · simp [asFields, Fields.set, hn]
    · have hfield : attributeField n ≠ attributeField name := fun h => hn (attributeField_inj.mp h)
      simpa [asFields, Fields.set, hn, hfield] using ih

theorem asFields_update (attributes more : Fields String) :
    asFields (attributes.update more) = (asFields attributes).update (asFields more) := by
  unfold Fields.update
  induction more generalizing attributes with
  | nil => rfl
  | cons a more ih =>
    rw [List.foldl_cons, ih, asFields_set]
    rfl

/-- Attributes with their names as they stand in a tree. -/
def named (prefixes : Prefixes) (attributes : Fields String) : Fields String :=
  Fields.ofPairs (attributes.map fun a => (attributeName prefixes a.1, a.2))

theorem attributeFields_eq (prefixes : Prefixes) (attributes : Fields String) :
    attributeFields prefixes attributes = asFields (named prefixes attributes) := by
  rw [named, Fields.ofPairs, asFields_update, attributeFields, Fields.ofPairs, asFields, asFields,
    List.map_map]
  rfl

/-- The name of the attribute that declares a prefix. -/
def declarationName (pre : String) : String := if pre.isEmpty then "xmlns" else "xmlns:" ++ pre

/-- The attributes that declare some namespaces. -/
def declarationsOf (declared : List (String × String)) : Fields String :=
  Fields.ofPairs (declared.map fun d => (declarationName d.1, d.2))

theorem namespaceFields_eq (declared : List (String × String)) :
    namespaceFields declared = asFields (declarationsOf declared) := by
  rw [declarationsOf, Fields.ofPairs, asFields_update, namespaceFields, Fields.ofPairs, asFields,
    asFields, List.map_map]
  rfl

/-! ### Layouts -/

/-- What a node is made of. -/
structure Layout where
  attributes : Fields String
  children : Fields Value
  text : String

namespace Layout

/-- The fields of a node: attributes, then children, then the text if there is any. -/
def fields (l : Layout) : Fields Value := asFields l.attributes ++ l.children ++ textFields l.text

/-- The names and texts of a node can be written, no name comes twice, a child stands alone or in
a list as its name and number ask for, and the text has no blanks at its ends. -/
structure IsTidy (l : Layout) : Prop where
  given : ∀ a ∈ l.attributes, IsGiven a
  attributesOnce : l.attributes.names.Nodup
  names : ∀ e ∈ l.children, isName e.1.toList = true
  childrenOnce : l.children.names.Nodup
  shape : ∀ e ∈ l.children, grouped e.1 (itemsOf e.2) = [e]
  legible : isLegible l.text = true
  trimmed : Text.trim l.text = l.text

end Layout

/-- A node is laid out as reading does it, and so are the nodes below. -/
inductive IsTidy : Value → Prop
  | text {s : String} (legible : isLegible s = true) (trimmed : Text.trim s = s) : IsTidy (.text s)
  | object {l : Layout} (tidy : l.IsTidy)
      (solid : (l.attributes.isEmpty && l.children.isEmpty) = false)
      (items : ∀ e ∈ l.children, ∀ v ∈ itemsOf e.2, IsTidy v) : IsTidy (.object l.fields)

theorem IsTidy.isList_eq_false {v : Value} (h : IsTidy v) : v.isList = false := by
  cases h <;> rfl

/-! ### What a layout is made of -/

theorem isElement_of_isName {name : String} (h : isName name.toList = true) :
    isElement name = true := by
  have hhead : ∀ c ∈ name.toList.head?, isNameStart c = true := by
    intro c hc
    cases hlist : name.toList with
    | nil => simp [hlist] at hc
    | cons d cs =>
      rw [hlist] at h hc
      rw [isName, Bool.and_eq_true] at h
      cases hc
      exact h.1
  have hattribute : attributeOf? name = none := by
    unfold attributeOf?
    split
    · next rest heq =>
      have := hhead '@' (by rw [heq]; rfl)
      exact absurd this (by decide)
    · rfl
  have htext : name ≠ textField := by
    rintro rfl
    exact absurd (hhead '#' rfl) (by decide)
  simp [isElement, isAttribute, hattribute, htext]

theorem attributeOf?_eq_none_of_isElement {name : String} (h : isElement name = true) :
    attributeOf? name = none := by
  simp only [isElement, isAttribute, Bool.not_eq_true', Bool.or_eq_false_iff] at h
  simpa using h.1

theorem ne_textField_of_isElement {name : String} (h : isElement name = true) :
    name ≠ textField := by
  rintro rfl
  exact absurd h (by decide)

theorem attributeOf?_textField : attributeOf? textField = none := by decide

theorem attributeField_ne_textField (name : String) : attributeField name ≠ textField := by
  intro h
  have hnone := congrArg attributeOf? h
  rw [attributeOf?_attributeField, attributeOf?_textField] at hnone
  cases hnone

theorem isElement_textField : isElement textField = false := by decide

theorem attributesAmong_append (fields more : Fields Value) :
    attributesAmong (fields ++ more) = attributesAmong fields ++ attributesAmong more := by
  induction fields with
  | nil => rfl
  | cons e fields ih =>
    obtain ⟨field, v⟩ := e
    rw [List.cons_append, attributesAmong, attributesAmong, ih]
    cases attributeOf? field <;> rfl

theorem attributesAmong_asFields (attributes : Fields String) :
    attributesAmong (asFields attributes) = attributes := by
  induction attributes with
  | nil => rfl
  | cons a attributes ih =>
    rw [asFields, List.map_cons, attributesAmong, attributeOf?_attributeField]
    exact congrArg _ ih

theorem attributesAmong_eq_nil {fields : Fields Value}
    (h : ∀ e ∈ fields, attributeOf? e.1 = none) : attributesAmong fields = [] := by
  induction fields with
  | nil => rfl
  | cons e fields ih =>
    obtain ⟨field, v⟩ := e
    rw [List.forall_mem_cons] at h
    have hfield : attributeOf? field = none := h.1
    rw [attributesAmong, hfield]
    exact ih h.2

theorem textAmong_append_of_ne {fields : Fields Value} (h : ∀ e ∈ fields, e.1 ≠ textField)
    (more : Fields Value) : textAmong (fields ++ more) = textAmong more := by
  induction fields with
  | nil => rfl
  | cons e fields ih =>
    obtain ⟨field, v⟩ := e
    rw [List.forall_mem_cons] at h
    rw [List.cons_append, textAmong, if_neg h.1]
    exact ih h.2

theorem eq_of_mem_textFields {s : String} {e : String × Value} (h : e ∈ textFields s) :
    e = (textField, .text s) := by
  unfold textFields at h
  split at h
  · cases h
  · exact List.mem_singleton.mp h

theorem textAmong_textFields (s : String) : textAmong (textFields s) = s := by
  unfold textFields
  split
  · next h => rw [String.isEmpty_iff.mp h]; rfl
  · simp [textAmong]

namespace Layout

variable {l : Layout}

theorem IsTidy.isElement (h : l.IsTidy) : ∀ e ∈ l.children, Tree.isElement e.1 = true :=
  fun e he => isElement_of_isName (h.names e he)

theorem IsTidy.attributesAmong (h : l.IsTidy) : attributesAmong l.fields = l.attributes := by
  have hchildren : Tree.attributesAmong l.children = [] :=
    attributesAmong_eq_nil fun e he => attributeOf?_eq_none_of_isElement (h.isElement e he)
  have htext : Tree.attributesAmong (textFields l.text) = [] := by
    refine attributesAmong_eq_nil fun e he => ?_
    rw [eq_of_mem_textFields he]
    exact attributeOf?_textField
  rw [fields, attributesAmong_append, attributesAmong_append, attributesAmong_asFields, hchildren,
    htext, List.append_nil, List.append_nil]

/-- Attributes and children are no text. -/
theorem ne_textField (h : ∀ e ∈ l.children, Tree.isElement e.1 = true) :
    ∀ e ∈ asFields l.attributes ++ l.children, e.1 ≠ textField := by
  refine List.forall_mem_append.mpr ⟨fun e he => ?_, fun e he => ?_⟩
  · obtain ⟨a, -, rfl⟩ := List.mem_map.mp he
    exact attributeField_ne_textField a.1
  · exact ne_textField_of_isElement (h e he)

theorem IsTidy.textAmong (h : l.IsTidy) : textAmong l.fields = l.text := by
  rw [fields, textAmong_append_of_ne (ne_textField h.isElement), textAmong_textFields]

/-- The children of a layout are the fields that hold elements. -/
theorem childrenAmong_fields (h : ∀ e ∈ l.children, Tree.isElement e.1 = true) :
    childrenAmong l.fields = l.children := by
  have hattributes : Tree.childrenAmong (asFields l.attributes) = [] := by
    refine List.filter_eq_nil_iff.mpr fun e he => ?_
    obtain ⟨a, -, rfl⟩ := List.mem_map.mp he
    simp [isElement_attributeField]
  have hchildren : Tree.childrenAmong l.children = l.children :=
    List.filter_eq_self.mpr h
  have htext : Tree.childrenAmong (textFields l.text) = [] := by
    unfold textFields
    split <;> simp [Tree.childrenAmong, isElement_textField]
  rw [Tree.childrenAmong] at hattributes hchildren htext ⊢
  rw [fields, List.filter_append, List.filter_append, hattributes, hchildren, htext,
    List.nil_append, List.append_nil]

theorem IsTidy.childrenAmong (h : l.IsTidy) : childrenAmong l.fields = l.children :=
  childrenAmong_fields h.isElement

/-- A tidy layout can be written, if what is below it can. -/
theorem IsTidy.isWritable (h : l.IsTidy)
    (hitems : ∀ e ∈ l.children, ∀ v ∈ itemsOf e.2, IsWritable v) :
    IsWritable (.object l.fields) := by
  refine .object ?_ ?_ ?_ ?_ ?_
  · rw [h.attributesAmong]
    exact h.given
  · rw [h.textAmong]
    exact h.legible
  · rw [h.childrenAmong]
    exact h.names
  · rw [h.childrenAmong]
    exact h.childrenOnce
  · rw [h.childrenAmong]
    exact hitems

end Layout

/-- **A tidy node can be written.** -/
theorem IsTidy.isWritable {v : Value} (h : IsTidy v) : IsWritable v := by
  induction h with
  | text legible _ => exact .atom rfl legible
  | object tidy _ _ ih => exact tidy.isWritable ih

/-! ### What reading makes of an element -/

theorem isLegible_trim {s : String} (h : isLegible s = true) : isLegible (Text.trim s) = true := by
  rw [isLegible, List.all_eq_true] at h ⊢
  intro c hc
  rw [Text.trim, String.toList_ofList, Text.trimmed, List.mem_reverse] at hc
  have hmem := (List.dropWhile_sublist _).subset (List.mem_reverse.mp
    ((List.dropWhile_sublist _).subset hc))
  exact h c hmem

theorem isWord_attributeName {prefixes : Prefixes}
    (hprefixes : ∀ p ∈ prefixes, isWord p.2.toList = true) {a : String × String}
    (ha : IsResolved a) : isWord (attributeName prefixes a.1).toList = true := by
  obtain ⟨⟨uri, bare, hclark, huri, hbare⟩, -⟩ := ha
  rw [hclark, attributeName, splitClark_clark huri (head?_ne_of_isWord hbare)]
  dsimp only
  split
  · exact hbare
  · split
    · next pre hpre =>
      have hword : isWord pre.toList = true := hprefixes _ (Fields.mem_of_get? hpre)
      have hcolon : isWord ":".toList = true := by decide
      rw [String.toList_append, String.toList_append, isWord_append, isWord_append, hword, hcolon,
        hbare]
      rfl
    · exact hbare

theorem isGiven_of_mem_named {prefixes : Prefixes}
    (hprefixes : ∀ p ∈ prefixes, isWord p.2.toList = true) {attributes : Fields String}
    (h : ∀ a ∈ attributes, IsResolved a) : ∀ a ∈ named prefixes attributes, IsGiven a := by
  intro a ha
  obtain ⟨a', ha', rfl⟩ := List.mem_map.mp (of_mem_ofPairs ha)
  exact ⟨isWord_attributeName hprefixes (h a' ha'), (h a' ha').2⟩

/-- The children put among fields, before a tree is brought into normal form. All of their values
are of one kind. -/
structure IsGathered (P : Value → Prop) (children : Fields Value) : Prop where
  names : ∀ e ∈ children, isName e.1.toList = true
  once : children.names.Nodup
  shape : ∀ e ∈ children, fieldOf e.1 (itemsOf e.2) = [e]
  items : ∀ e ∈ children, ∀ v ∈ itemsOf e.2, v.isList = false ∧ P v

theorem IsGathered.nil {P : Value → Prop} : IsGathered P [] :=
  ⟨by simp, List.nodup_nil, by simp, by simp⟩

theorem itemsOf_eq_singleton {v : Value} (h : v.isList = false) : itemsOf v = [v] := by
  cases v with
  | list items => cases h
  | _ => rfl

theorem addChild_of_get? {children : Fields Value} {name : String} {w : Value}
    (h : children.get? name = some w) (v : Value) :
    addChild children name v = children.set name (.list (itemsOf w ++ [v])) := by
  unfold addChild
  rw [h]
  cases w <;> rfl

theorem isGathered_addChild {P : Value → Prop} {children : Fields Value}
    (h : IsGathered P children) {name : String} (hname : isName name.toList = true) {v : Value}
    (hv : v.isList = false) (hvalue : P v) : IsGathered P (addChild children name v) := by
  -- in either case a field is set, and what stands in it is as it should be
  suffices ∀ w : Value, fieldOf name (itemsOf w) = [(name, w)] →
      (∀ u ∈ itemsOf w, u.isList = false ∧ P u) → IsGathered P (children.set name w) by
    cases hget : children.get? name with
    | none =>
      rw [addChild, hget]
      refine this v ?_ ?_ <;> rw [itemsOf_eq_singleton hv]
      · rfl
      · simpa using ⟨hv, hvalue⟩
    | some w =>
      rw [addChild_of_get? hget]
      have hmem := Fields.mem_of_get? hget
      refine this _ ?_ ?_
      · have hshape := h.shape _ hmem
        dsimp only at hshape
        rw [itemsOf]
        cases hitems : itemsOf w with
        | nil =>
          rw [hitems] at hshape
          cases hshape
        | cons u items => cases items <;> rfl
      · rw [itemsOf]
        exact List.forall_mem_append.mpr ⟨h.items _ hmem, by simpa using ⟨hv, hvalue⟩⟩
  intro w hshape hitems
  refine ⟨fun e he => ?_, Fields.nodup_names_set h.once _ _, fun e he => ?_, fun e he => ?_⟩ <;>
    rcases Fields.mem_set he with he | rfl
  · exact h.names e he
  · exact hname
  · exact h.shape e he
  · exact hshape
  · exact h.items e he
  · exact hitems

theorem addChild_append {before : Fields Value} {name : String} (h : before.get? name = none)
    (children : Fields Value) (v : Value) :
    addChild (before ++ children) name v = before ++ addChild children name v := by
  unfold addChild
  rw [Fields.get?_append_of_eq_none h]
  split <;> exact Fields.set_append_of_eq_none h _ _

/-- Children come behind what was there, gathered by their names. -/
theorem exists_convertChildren_eq {P : Value → Prop} {prefixes : Prefixes} {es : List Element}
    (hes : ∀ e ∈ es, isName (bareName e.tag).toList = true)
    (hvalues : ∀ e ∈ es, P (convert prefixes e)) {before : Fields Value}
    (hbefore : ∀ name, isElement name = true → before.get? name = none)
    {children : Fields Value} (h : IsGathered P children) : ∃ children', IsGathered P children' ∧
      convertChildren prefixes es (before ++ children) = before ++ children' := by
  induction es generalizing children with
  | nil => exact ⟨children, h, by rw [convertChildren]⟩
  | cons e es ih =>
    obtain ⟨tag, attributes, text, below, tail⟩ := e
    rw [List.forall_mem_cons] at hes hvalues
    have hname : isName (bareName tag).toList = true := hes.1
    have hadd := isGathered_addChild h hname (isList_convert prefixes _) hvalues.1
    obtain ⟨children', hchildren', heq⟩ := ih hes.2 hvalues.2 hadd
    refine ⟨children', hchildren', ?_⟩
    rw [convertChildren, addChild_append (hbefore _ (isElement_of_isName hname))]
    exact heq

theorem itemsOf_of_grouped {name : String} {items : List Value} {v : Value}
    (hitems : ∀ w ∈ items, w.isList = false) (h : grouped name items = [(name, v)]) :
    itemsOf v = items := by
  match items, h with
  | [w], h =>
    have hw := hitems w List.mem_cons_self
    simp only [grouped, List.cons.injEq, Prod.mk.injEq, true_and, and_true] at h
    rw [← h, listed]
    split
    · rfl
    · exact itemsOf_eq_singleton hw
  | w :: w' :: items, h =>
    simp only [grouped, List.cons.injEq, Prod.mk.injEq, true_and, and_true] at h
    rw [← h]
    rfl

/-- A gathered field is tidy once it is in normal form. -/
theorem IsGathered.of_mem_normalizeFields {children : Fields Value}
    (h : IsGathered (fun v => IsTidy (normalize v)) children) {e : String × Value}
    (he : e ∈ normalizeFields children) :
    isName e.1.toList = true ∧ grouped e.1 (itemsOf e.2) = [e] ∧ ∀ v ∈ itemsOf e.2, IsTidy v := by
  rw [normalizeFields_eq_map] at he
  obtain ⟨⟨name, w⟩, hw, rfl⟩ := List.mem_map.mp he
  dsimp only
  have htidy : ∀ v ∈ (itemsOf w).map normalize, IsTidy v := by
    intro v hv
    obtain ⟨u, hu, rfl⟩ := List.mem_map.mp hv
    exact (h.items _ hw u hu).2
  have hgrouped : grouped name ((itemsOf w).map normalize) =
      [(name, listed name (normalize w))] := by
    have hshape : fieldOf name (itemsOf w) = [(name, w)] := h.shape _ hw
    rw [← normalizeFields_fieldOf, hshape, normalizeFields, normalizeFields]
  have hitems := itemsOf_of_grouped (fun v hv => (htidy v hv).isList_eq_false) hgrouped
  rw [hitems]
  exact ⟨h.names _ hw, hgrouped, htidy⟩

/-- **The value of an element that was read is tidy.** -/
theorem isTidy_normalize_convert {prefixes : Prefixes}
    (hprefixes : ∀ p ∈ prefixes, isWord p.2.toList = true) {e : Element} (he : e.IsSound) :
    IsTidy (normalize (convert prefixes e)) := by
  induction he with
  | @mk tag attributes text es tail _ hattributes htext hes ih =>
    have hbefore : ∀ name, isElement name = true →
        (attributeFields prefixes attributes).get? name = none :=
      fun name hname => get?_attributeFields (Or.inl hname)
    have hnames : ∀ e ∈ es, isName (bareName e.tag).toList = true :=
      fun e he => (hes e he).isName
    obtain ⟨children, hchildren, heq⟩ := exists_convertChildren_eq
      (P := fun v => IsTidy (normalize v)) hnames ih hbefore .nil
    rw [List.append_nil] at heq
    have hnormal := congrArg normalizeFields heq
    rw [normalizeFields_append, normalizeFields_attributeFields] at hnormal
    have hmem : ∀ e ∈ normalizeFields children, _ := fun e he => hchildren.of_mem_normalizeFields he
    rw [normalize_convert hnormal fun e he => isElement_of_isName (hmem e he).1, assembled,
      attributeFields_eq]
    split
    · exact .text (isLegible_trim htext) (Text.trim_trim text)
    · next hsolid =>
      refine IsTidy.object (l := ⟨named prefixes attributes, normalizeFields children,
        Text.trim text⟩) ?_ ?_ fun e he => (hmem e he).2.2
      · exact
          { given := isGiven_of_mem_named hprefixes hattributes
            attributesOnce := Fields.nodup_names_ofPairs _
            names := fun e he => (hmem e he).1
            childrenOnce := by
              rw [names_normalizeFields]
              exact hchildren.once
            shape := fun e he => (hmem e he).2.1
            legible := isLegible_trim htext
            trimmed := Text.trim_trim text }
      · simpa [asFields] using hsolid

/-! ### What reading makes of a document -/

theorem isWord_of_mem_prefixesOf {declared : List (String × String)}
    (h : ∀ d ∈ declared, isWord d.1.toList = true) :
    ∀ p ∈ prefixesOf declared, isWord p.2.toList = true := by
  have hknown : ∀ p ∈ knownPrefixes, isWord p.2.toList = true := by decide
  suffices ∀ (ds : List (String × String)) (prefixes : Prefixes),
      (∀ d ∈ ds, isWord d.1.toList = true) → (∀ p ∈ prefixes, isWord p.2.toList = true) →
        ∀ p ∈ ds.foldl (fun acc d => acc.set d.2 d.1) prefixes, isWord p.2.toList = true from
    this _ _ (fun d hd => h d (List.mem_of_mem_filter hd)) hknown
  intro ds
  induction ds with
  | nil => exact fun _ _ hprefixes => hprefixes
  | cons d ds ih =>
    intro prefixes hds hprefixes
    rw [List.forall_mem_cons] at hds
    refine ih _ hds.2 fun p hp => ?_
    rcases Fields.mem_set hp with hp | rfl
    · exact hprefixes p hp
    · exact hds.1

theorem isWord_declarationName {pre : String} (h : isWord pre.toList = true) :
    isWord (declarationName pre).toList = true := by
  have hxmlns : isWord "xmlns:".toList = true := by decide
  unfold declarationName
  split
  · decide
  · rw [String.toList_append, isWord_append, hxmlns, h]
    rfl

theorem isGiven_of_mem_declarationsOf {declared : List (String × String)}
    (h : ∀ d ∈ declared, IsGiven d) : ∀ a ∈ declarationsOf declared, IsGiven a := by
  intro a ha
  obtain ⟨d, hd, rfl⟩ := List.mem_map.mp (of_mem_ofPairs ha)
  exact ⟨isWord_declarationName (h d hd).1, (h d hd).2⟩

theorem get?_asFields_of_ne {attributes : Fields String} {name : String}
    (h : attributeOf? name = none) : (asFields attributes).get? name = none := by
  rw [Fields.get?_eq_none_iff]
  intro hmem
  obtain ⟨e, he, rfl⟩ := List.mem_map.mp hmem
  obtain ⟨a, -, rfl⟩ := List.mem_map.mp he
  rw [attributeOf?_attributeField] at h
  cases h

/-- The fields of a node that hold no attributes. -/
def Layout.content (l : Layout) : Fields Value := l.children ++ textFields l.text

section Content

variable {l : Layout}

theorem Layout.attributeOf?_content (h : ∀ e ∈ l.children, isElement e.1 = true) :
    ∀ e ∈ l.content, attributeOf? e.1 = none := by
  refine List.forall_mem_append.mpr ⟨fun e he => ?_, fun e he => ?_⟩
  · exact attributeOf?_eq_none_of_isElement (h e he)
  · rw [eq_of_mem_textFields he]
    exact attributeOf?_textField

theorem Layout.nodup_names_content (h : ∀ e ∈ l.children, isElement e.1 = true)
    (honce : l.children.names.Nodup) : l.content.names.Nodup := by
  have htext : (Fields.names (textFields l.text)).Nodup := by
    unfold textFields
    split <;> simp [Fields.names]
  rw [Layout.content, Fields.names, List.map_append]
  refine List.nodup_append.mpr ⟨honce, htext, ?_⟩
  rintro name hname _ hother rfl
  obtain ⟨e, he, rfl⟩ := List.mem_map.mp hname
  obtain ⟨t, ht, heq⟩ := List.mem_map.mp hother
  rw [eq_of_mem_textFields ht] at heq
  exact ne_textField_of_isElement (h e he) heq.symm

theorem Layout.fields_eq (l : Layout) : l.fields = asFields l.attributes ++ l.content :=
  List.append_assoc _ _ _

end Content

theorem names_asFields (attributes : Fields String) :
    Fields.names (asFields attributes) = attributes.names.map attributeField := by
  simp [asFields, Fields.names]

namespace Layout

theorem names_fields (l : Layout) :
    l.fields.names = l.attributes.names.map attributeField ++ Fields.names l.content := by
  rw [fields_eq, ← names_asFields]
  exact List.map_append

theorem nodup_names_fields {l : Layout} (h : ∀ e ∈ l.children, isElement e.1 = true)
    (honce : l.attributes.names.Nodup) (hchildren : l.children.names.Nodup) :
    l.fields.names.Nodup := by
  have hattributes : (l.attributes.names.map attributeField).Nodup :=
    honce.map fun _ _ h => attributeField_inj.mp h
  rw [names_fields]
  refine List.nodup_append.mpr ⟨hattributes, nodup_names_content h hchildren, ?_⟩
  rintro _ hname _ hother rfl
  obtain ⟨name, -, rfl⟩ := List.mem_map.mp hname
  obtain ⟨e, he, heq⟩ := List.mem_map.mp hother
  have hnone := attributeOf?_content h e he
  rw [heq, attributeOf?_attributeField] at hnone
  cases hnone

/-- A child is told by its name. -/
theorem get?_fields_of_isElement (l : Layout) {name : String} (h : isElement name = true) :
    l.fields.get? name = l.children.get? name := by
  rw [fields_eq, Fields.get?_append_of_eq_none
    (get?_asFields_of_ne (attributeOf?_eq_none_of_isElement h)), content]
  cases hget : l.children.get? name with
  | some v => exact Fields.get?_append_of_eq_some hget _
  | none =>
    rw [Fields.get?_append_of_eq_none hget, textFields]
    split
    · rfl
    · rw [Fields.get?, if_neg (ne_textField_of_isElement h).symm, Fields.get?_nil]

/-- So is the text. -/
theorem get?_fields_textField {l : Layout} (h : ∀ e ∈ l.children, isElement e.1 = true) :
    l.fields.get? textField = if l.text.isEmpty then none else some (.text l.text) := by
  have hchildren : l.children.get? textField = none := by
    rw [Fields.get?_eq_none_iff]
    intro hmem
    obtain ⟨e, he, heq⟩ := List.mem_map.mp hmem
    exact ne_textField_of_isElement (h e he) heq
  rw [fields_eq, Fields.get?_append_of_eq_none (get?_asFields_of_ne attributeOf?_textField), content,
    Fields.get?_append_of_eq_none hchildren, textFields]
  split
  · rfl
  · rw [Fields.get?, if_pos rfl]

theorem IsTidy.nodup_names_fields {l : Layout} (tidy : l.IsTidy) : l.fields.names.Nodup :=
  Layout.nodup_names_fields tidy.isElement tidy.attributesOnce tidy.childrenOnce

end Layout

/-- Attributes are updated in front of the rest. -/
theorem update_asFields (attributes more : Fields String) {content : Fields Value}
    (hcontent : ∀ e ∈ content, attributeOf? e.1 = none) (honce : content.names.Nodup) :
    Fields.update (asFields attributes) (asFields more ++ content) =
      asFields (attributes.update more) ++ content := by
  have hupdate : Fields.update (asFields attributes) (asFields more ++ content) =
      Fields.update (Fields.update (asFields attributes) (asFields more)) content :=
    List.foldl_append
  rw [hupdate, ← asFields_update, Fields.update_eq_append honce fun e he =>
    get?_asFields_of_ne (hcontent e he)]

/-- The fields of a root that was read are laid out as those of a node. -/
theorem exists_layout_rootFields {v : Value} (h : IsTidy v) : ∃ l : Layout, l.IsTidy ∧
    (∀ e ∈ l.children, ∀ v ∈ itemsOf e.2, IsTidy v) ∧ rootFields v = l.fields := by
  cases h with
  | @text s legible trimmed =>
    refine ⟨⟨[], [], s⟩, ⟨by simp, List.nodup_nil, by simp, List.nodup_nil, by simp, legible,
      trimmed⟩, by simp, ?_⟩
    rfl
  | @object l tidy _ items => exact ⟨l, tidy, items, rfl⟩

/-- **The tree of a document is tidy.** -/
theorem exists_layout_of_parse {xml : String} {tree : Value} (h : parse xml = .ok tree) :
    ∃ name, isName name.toList = true ∧ ∃ l : Layout, l.IsTidy ∧
      (∀ e ∈ l.children, ∀ v ∈ itemsOf e.2, IsTidy v) ∧
        tree = .object [(name, listed name (.object l.fields))] := by
  unfold parse at h
  split at h
  · cases h
  split at h
  · next document hread =>
    cases h
    obtain ⟨hroot, hdeclared⟩ := Document.isSound_of_read hread
    have htidy := isTidy_normalize_convert
      (isWord_of_mem_prefixesOf fun d hd => (hdeclared d hd).1) hroot
    obtain ⟨l, hl, hitems, hfields⟩ := exists_layout_rootFields htidy
    let declarations := declarationsOf document.declared
    refine ⟨_, hroot.isName, { l with attributes := declarations.update l.attributes }, ?_, hitems,
      ?_⟩
    · exact
        { hl with
          given := fun a ha => (Fields.mem_update ha).elim
            (isGiven_of_mem_declarationsOf hdeclared a) (hl.given a)
          attributesOnce := Fields.nodup_names_update (Fields.nodup_names_ofPairs _) }
    · rw [ofDocument_eq rfl rfl, namespaceFields_eq, hfields, Layout.fields_eq,
        update_asFields _ _ (Layout.attributeOf?_content hl.isElement)
          (Layout.nodup_names_content hl.isElement hl.childrenOnce), Layout.fields_eq]
      rfl
  · cases h
  · cases h

end Tree
end Policy
end TrustFramework
