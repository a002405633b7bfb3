import TrustFramework.Proofs.Fallible
import TrustFramework.Proofs.Policy.Lasting
import TrustFramework.Proofs.Policy.Literal

/-!
# Reading undoes writing, where trees last

The tree of a document is written as a document again.  What is read from there is the tree, if
the tree lasts, and never else: every way in which a tree fails to last shows in what is read.
A root that may repeat is a list of one, and is written as the literal of that list.

## Main definitions

* `isLasting` — the root of a tree lasts.

## Main results

* `lasts_of_same` — a node that is read as it was lasts.
* `parse_serialize_of_parse_iff` — **the tree of a document is read as it was exactly if it
  lasts.**
-/

namespace TrustFramework

open Xml

/-! ### Equality by content -/

namespace Value

theorem same_text_iff {s t : String} : (text s).same (text t) = true ↔ s = t := beq_iff_eq

theorem same_list_iff {items others : List Value} : (list items).same (list others) = true ↔
    List.Forall₂ (fun v w => same v w = true) items others := by
  change sameItems items others = true ↔ _
  induction items generalizing others with
  | nil =>
    cases others with
    | nil => exact iff_of_true rfl .nil
    | cons w others => exact iff_of_false Bool.false_ne_true nofun
  | cons v items ih =>
    cases others with
    | nil => exact iff_of_false Bool.false_ne_true nofun
    | cons w others =>
      change (same v w && sameItems items others) = true ↔ _
      rw [Bool.and_eq_true, ih, List.forall₂_cons]

theorem same_object_iff {fields others : Fields Value} :
    (object fields).same (object others) = true ↔ fields.length = others.length ∧
      ∀ e ∈ fields, ∃ w, Fields.get? others e.1 = some w ∧ same e.2 w = true := by
  have hfields : sameFields fields others = true ↔
      ∀ e ∈ fields, ∃ w, Fields.get? others e.1 = some w ∧ same e.2 w = true := by
    induction fields with
    | nil => exact iff_of_true rfl (by simp)
    | cons e fields ih =>
      obtain ⟨name, v⟩ := e
      change (((Fields.get? others name).any fun w => same v w) && sameFields fields others) =
        true ↔ _
      rw [Bool.and_eq_true, ih, List.forall_mem_cons, Option.any_eq_true]
  change (fields.length == others.length && sameFields fields others) = true ↔ _
  rw [Bool.and_eq_true, hfields, beq_iff_eq]

theorem same_text_object {s : String} {fields : Fields Value} :
    (text s).same (object fields) = false := rfl

/-- The same fields in another order are the same. -/
theorem same_of_perm {fields others : Fields Value} (h : fields.Perm others)
    (honce : others.names.Nodup) (hself : ∀ e ∈ others, e.2.same e.2 = true) :
    (object fields).same (object others) = true := by
  refine same_object_iff.mpr ⟨h.length_eq, fun e he => ?_⟩
  have hmem := h.mem_iff.mp he
  exact ⟨e.2, Fields.get?_of_mem honce hmem, hself e hmem⟩

/-- What is the same has the same names. -/
theorem names_perm_of_same {fields others : Fields Value} (honce : fields.names.Nodup)
    (h : (object fields).same (object others) = true) : fields.names.Perm others.names := by
  obtain ⟨hlength, hget⟩ := same_object_iff.mp h
  have hsubset : fields.names ⊆ others.names := by
    intro name hname
    obtain ⟨e, he, rfl⟩ := List.mem_map.mp hname
    obtain ⟨w, hw, -⟩ := hget e he
    exact List.mem_map.mpr ⟨_, Fields.mem_of_get? hw, rfl⟩
  refine (List.subperm_of_subset honce hsubset).perm_of_length_le ?_
  rw [Fields.names, Fields.names, List.length_map, List.length_map, hlength]

end Value

namespace Policy
namespace Tree

/-! ### Layouts that are the same -/

namespace Layout

/-- The names of fields that hold attributes. -/
theorem filterMap_names_fields {l : Layout} (h : ∀ e ∈ l.children, isElement e.1 = true) :
    l.fields.names.filterMap attributeOf? = l.attributes.names := by
  have hattributes : (l.attributes.names.map attributeField).filterMap attributeOf? =
      l.attributes.names := by
    rw [List.filterMap_map]
    refine (List.filterMap_congr fun name _ => attributeOf?_attributeField name).trans ?_
    exact List.filterMap_some
  have hcontent : (Fields.names l.content).filterMap attributeOf? = [] := by
    refine List.filterMap_eq_nil_iff.mpr fun name hname => ?_
    obtain ⟨e, he, rfl⟩ := List.mem_map.mp hname
    exact attributeOf?_content h e he
  rw [names_fields, List.filterMap_append, hattributes, hcontent, List.append_nil]

theorem isElement_of_names_eq {children children' : Fields Value}
    (hnames : children'.names = children.names) (h : ∀ e ∈ children, isElement e.1 = true) :
    ∀ e ∈ children', isElement e.1 = true := by
  intro e he
  have hmem : e.1 ∈ children.names := hnames ▸ List.mem_map_of_mem (f := Prod.fst) he
  obtain ⟨e', he', heq⟩ := List.mem_map.mp hmem
  exact heq ▸ h e' he'

/-- Layouts that are the same have the same attributes and the same text, and children that are
the same. -/
theorem of_same {l l' : Layout} (h : l.IsTidy) (honce : l'.attributes.names.Nodup)
    (hnames : l'.children.names = l.children.names)
    (hsame : (Value.object l'.fields).same (.object l.fields) = true) :
    l'.attributes.names.Perm l.attributes.names ∧ l'.text = l.text ∧
      ∀ e ∈ l'.children, ∃ w, l.children.get? e.1 = some w ∧ e.2.same w = true := by
  have hchildren := isElement_of_names_eq hnames h.isElement
  have hnames := Value.names_perm_of_same
    (nodup_names_fields hchildren honce (hnames ▸ h.childrenOnce)) hsame
  have hget := (Value.same_object_iff.mp hsame).2
  refine ⟨?_, ?_, fun e he => ?_⟩
  · have hperm := hnames.filterMap attributeOf?
    rwa [filterMap_names_fields hchildren, filterMap_names_fields h.isElement] at hperm
  · -- a text is there on both sides or on neither
    have hboth : l'.fields.get? textField = none ↔ l.fields.get? textField = none := by
      rw [Fields.get?_eq_none_iff, Fields.get?_eq_none_iff, hnames.mem_iff]
    rw [get?_fields_textField hchildren, get?_fields_textField h.isElement] at hboth
    by_cases htext : l'.text.isEmpty = true
    · rw [if_pos htext] at hboth
      have htext' : l.text.isEmpty = true := by simpa using hboth
      rw [String.isEmpty_iff.mp htext, String.isEmpty_iff.mp htext']
    · have hmem : (textField, Value.text l'.text) ∈ l'.fields := by
        have : l'.fields.get? textField = some (.text l'.text) := by
          rw [get?_fields_textField hchildren, if_neg htext]
        exact Fields.mem_of_get? this
      obtain ⟨w, hw, hsame⟩ := hget _ hmem
      rw [get?_fields_textField h.isElement] at hw
      split at hw
      · cases hw
      · cases hw
        exact Value.same_text_iff.mp hsame
  · have hmem : e ∈ l'.fields :=
      List.mem_append_left _ (List.mem_append_right _ he)
    obtain ⟨w, hw, hsame⟩ := hget e hmem
    rw [get?_fields_of_isElement l (hchildren e he)] at hw
    exact ⟨w, hw, hsame⟩

end Layout

/-! ### What was read -/

section Read

variable {prefixes : Prefixes} {scope inner : Fields String}

theorem of_attributesRead? {attributes resolved : Fields String}
    (h : attributesRead? scope attributes = some (inner, resolved)) :
    (∀ a ∈ attributes, isQualified a.1 = true) ∧ bindAll? scope attributes = some inner ∧
      resolveAll? inner attributes = some resolved := by
  unfold attributesRead? at h
  simp only [Option.bind_eq_bind, Option.pure_def] at h
  split at h
  · cases h
  next hqualified =>
  split at h
  · cases h
  obtain ⟨inner', hinner, h⟩ := Option.bind_eq_some_iff.mp h
  obtain ⟨resolved', hresolved, h⟩ := Option.bind_eq_some_iff.mp h
  split at h
  · cases h
  · cases h
    exact ⟨List.all_eq_true.mp (by simpa using hqualified), hinner, hresolved⟩

/-- Attributes that are read are some that declare nothing, with their names resolved. -/
theorem forall₂_of_resolveAll? {attributes resolved : Fields String}
    (h : resolveAll? inner attributes = some resolved) :
    List.Forall₂ (fun a a' => Xml.resolve? inner false a.1 = some a'.1) (ownOf attributes)
      resolved := by
  induction attributes generalizing resolved with
  | nil =>
    cases h
    exact .nil
  | cons a attributes ih =>
    obtain ⟨name, value⟩ := a
    rw [resolveAll?] at h
    cases hdeclared : declaredPrefix? name with
    | some pre =>
      have hskip : ownOf ((name, value) :: attributes) = ownOf attributes :=
        List.filter_cons_of_neg (by simp [hdeclared])
      rw [hskip]
      rw [hdeclared] at h
      exact ih h
    | none =>
      have hown : ownOf ((name, value) :: attributes) = (name, value) :: ownOf attributes :=
        List.filter_cons_of_pos (by simp [hdeclared])
      rw [hown]
      rw [hdeclared] at h
      obtain ⟨name', hname, h⟩ := Option.bind_eq_some_iff.mp h
      obtain ⟨rest, hrest, h⟩ := Option.bind_eq_some_iff.mp h
      cases h
      exact .cons hname (ih hrest)

theorem exists_of_forall₂ {α β : Type} {R : α → β → Prop} {items : List α} {others : List β}
    (h : List.Forall₂ R items others) {b : β} (hb : b ∈ others) : ∃ a ∈ items, R a b := by
  induction h with
  | nil => cases hb
  | @cons a b' items others hab _ ih =>
    rcases List.mem_cons.mp hb with rfl | hb
    · exact ⟨a, List.mem_cons_self, hab⟩
    · obtain ⟨a', ha', hab'⟩ := ih hb
      exact ⟨a', List.mem_cons_of_mem _ ha', hab'⟩

theorem exists_of_forall₂_of_forall₂ {α β : Type} {R : α → β → Prop} {S : β → α → Prop}
    {items : List α} {others : List β} (h : List.Forall₂ R items others)
    (hback : List.Forall₂ S others items) {a : α} (ha : a ∈ items) : ∃ b, R a b ∧ S b a := by
  induction h with
  | nil => cases ha
  | @cons a' b items others hab _ ih =>
    cases hback with
    | cons hba hback =>
      rcases List.mem_cons.mp ha with rfl | ha
      · exact ⟨b, hab, hba⟩
      · exact ih hback ha

/-- A name that some attribute has when it is read again. -/
def IsRenaming (prefixes : Prefixes) (scope : Fields String) (name : String) : Prop :=
  ∃ other, isQualified other = true ∧ declaredPrefix? other = none ∧
    renamed? prefixes scope other = some name

theorem isRenaming_of_mem_named {attributes resolved : Fields String}
    (hqualified : ∀ a ∈ attributes, isQualified a.1 = true)
    (hresolved : resolveAll? inner attributes = some resolved) {name : String}
    (h : name ∈ (named prefixes resolved).names) : IsRenaming prefixes inner name := by
  obtain ⟨e, he, rfl⟩ := List.mem_map.mp h
  obtain ⟨a', ha', rfl⟩ := List.mem_map.mp (of_mem_ofPairs he)
  obtain ⟨a, ha, hresolve⟩ := exists_of_forall₂ (forall₂_of_resolveAll? hresolved) ha'
  obtain ⟨ha, hnone⟩ := List.mem_filter.mp ha
  refine ⟨a.1, hqualified a ha, by simpa using hnone, ?_⟩
  rw [renamed?, hresolve, Option.map_some]

theorem length_update_le {α : Type} (fields more : Fields α) :
    (fields.update more).length ≤ fields.length + more.length := by
  unfold Fields.update
  induction more generalizing fields with
  | nil => simp
  | cons e more ih =>
    have hset : (fields.set e.1 e.2).length ≤ fields.length + 1 := by
      have hnames := congrArg List.length (Fields.names_set fields e.1 e.2)
      rw [Fields.names, List.length_map] at hnames
      rw [hnames]
      split <;> simp [Fields.names]
    have hrest := ih (fields.set e.1 e.2)
    rw [List.foldl_cons, List.length_cons]
    omega

/-- Attributes are lost if some of them declare namespaces. -/
theorem declares_nothing_of_length {attributes resolved : Fields String}
    (hresolved : resolveAll? inner attributes = some resolved)
    (h : attributes.length ≤ (named prefixes resolved).length) :
    ∀ a ∈ attributes, declaredPrefix? a.1 = none := by
  have hnamed : (named prefixes resolved).length ≤ resolved.length := by
    have := length_update_le [] (resolved.map fun a => (attributeName prefixes a.1, a.2))
    rw [List.length_map, List.length_nil, Nat.zero_add] at this
    exact this
  have hlength := (forall₂_of_resolveAll? hresolved).length_eq
  have hle : attributes.length ≤ (ownOf attributes).length := by omega
  have hown : ownOf attributes = attributes := List.filter_sublist.eq_of_length_le hle
  intro a ha
  rw [← hown] at ha
  simpa using (List.mem_filter.mp ha).2

theorem isList_eq_false_of_reread? {v w : Value} (h : reread? prefixes scope v = some w) :
    w.isList = false := by
  cases hv : v.isObject with
  | false =>
    rw [reread?_atom hv] at h
    cases h
    rfl
  | true =>
    cases v with
    | object fields =>
      rw [reread?] at h
      obtain ⟨read, -, h⟩ := Option.bind_eq_some_iff.mp h
      obtain ⟨children, -, rfl⟩ := Option.map_eq_some_iff.mp h
      rw [assembled]
      split <;> rfl
    | _ => cases hv

theorem forall₂_of_rereadItems? {items items' : List Value}
    (h : rereadItems? prefixes scope items = some items') :
    List.Forall₂ (fun v w => reread? prefixes scope v = some w) items items' := by
  induction items generalizing items' with
  | nil =>
    rw [rereadItems?_nil] at h
    cases h
    exact .nil
  | cons v items ih =>
    rw [rereadItems?_cons] at h
    obtain ⟨w, hw, h⟩ := Option.bind_eq_some_iff.mp h
    obtain ⟨rest, hrest, rfl⟩ := Option.map_eq_some_iff.mp h
    exact .cons hw (ih hrest)

/-- A child that is read again has its name, and its items are those that are read again. -/
def IsChildReread (prefixes : Prefixes) (scope : Fields String) (e e' : String × Value) : Prop :=
  e'.1 = e.1 ∧ ∃ items, grouped e.1 items = [e'] ∧
    List.Forall₂ (fun v w => reread? prefixes scope v = some w) (itemsOf e.2) items

theorem forall₂_of_rereadFields? {children children' : Fields Value}
    (helement : ∀ e ∈ children, isElement e.1 = true)
    (hshape : ∀ e ∈ children, grouped e.1 (itemsOf e.2) = [e])
    (h : rereadFields? prefixes scope children = some children') :
    List.Forall₂ (IsChildReread prefixes scope) children children' := by
  induction children generalizing children' with
  | nil =>
    rw [rereadFields?_nil] at h
    cases h
    exact .nil
  | cons e children ih =>
    obtain ⟨field, v⟩ := e
    rw [List.forall_mem_cons] at helement hshape
    have hfield : isElement field = true := helement.1
    rw [rereadFields?_cons, hfield, if_pos rfl] at h
    obtain ⟨items, hitems, h⟩ := Option.bind_eq_some_iff.mp h
    obtain ⟨rest, hrest, rfl⟩ := Option.map_eq_some_iff.mp h
    have hread := forall₂_of_rereadItems? hitems
    -- a child has items, so that it is there still
    obtain ⟨w, hw⟩ : ∃ w, grouped field items = [(field, w)] := by
      cases items with
      | nil =>
        cases hnone : itemsOf v with
        | nil =>
          have := hshape.1
          rw [hnone] at this
          cases this
        | cons u us =>
          rw [hnone] at hread
          cases hread
      | cons w ws => cases ws <;> exact ⟨_, rfl⟩
    rw [hw, List.singleton_append]
    exact .cons ⟨rfl, items, hw, hread⟩ (ih helement.2 hshape.2 hrest)

/-- Children in normal form are the same if their items are. -/
theorem forall₂_same_of_grouped {name : String} {items others : List Value} {v w : Value}
    (hitems : ∀ u ∈ items, u.isList = false) (hothers : ∀ u ∈ others, u.isList = false)
    (hlength : items.length = others.length) (hv : grouped name items = [(name, v)])
    (hw : grouped name others = [(name, w)]) (h : v.same w = true) :
    List.Forall₂ (fun u u' => u.same u' = true) items others := by
  match items, others, hlength with
  | [u], [u'], _ =>
    have hu := hitems u List.mem_cons_self
    have hu' := hothers u' List.mem_cons_self
    simp only [grouped, List.cons.injEq, Prod.mk.injEq, true_and, and_true, listed, hu, hu',
      Bool.not_false, Bool.and_true] at hv hw
    rw [← hv, ← hw] at h
    split at h
    · exact Value.same_list_iff.mp h
    · exact .cons h .nil
  | u :: t :: us, u' :: t' :: us', _ =>
    simp only [grouped, List.cons.injEq, Prod.mk.injEq, true_and, and_true] at hv hw
    rw [← hv, ← hw] at h
    exact Value.same_list_iff.mp h
  | [], [], _ => exact .nil

/-- **What is below a node that is read as it was is read as it was.** -/
theorem exists_reread?_of_same {l : Layout} (tidy : l.IsTidy)
    (items : ∀ e ∈ l.children, ∀ v ∈ itemsOf e.2, IsTidy v) {children' : Fields Value}
    (hread : rereadFields? prefixes inner l.children = some children')
    (hsame : ∀ e ∈ children', ∃ w, l.children.get? e.1 = some w ∧ e.2.same w = true) :
    ∀ e ∈ l.children, ∀ v ∈ itemsOf e.2, ∃ w, reread? prefixes inner v = some w ∧
      w.same v = true := by
  have hrelated := forall₂_of_rereadFields? tidy.isElement tidy.shape hread
  intro e he v hv
  obtain ⟨e', he', hname, ws, hgrouped, hws⟩ := exists_of_forall₂ hrelated.flip he
  obtain ⟨w, hw, hsame⟩ := hsame e' he'
  rw [hname, Fields.get?_of_mem tidy.childrenOnce he, Option.some.injEq] at hw
  subst hw
  have hws' : ∀ u ∈ ws, u.isList = false := by
    intro u hu
    obtain ⟨t, -, ht⟩ := exists_of_forall₂ hws hu
    exact isList_eq_false_of_reread? ht
  rw [← hname] at hgrouped
  have hpairs := forall₂_same_of_grouped hws' (fun u hu => (items e he u hu).isList_eq_false)
    hws.length_eq.symm hgrouped (hname ▸ tidy.shape e he) hsame
  exact exists_of_forall₂_of_forall₂ hws hpairs hv

theorem names_of_rereadFields? {l : Layout} (tidy : l.IsTidy) {children' : Fields Value}
    (hread : rereadFields? prefixes inner l.children = some children') :
    children'.names = l.children.names := by
  have hnames : ∀ {children children' : Fields Value},
      List.Forall₂ (IsChildReread prefixes inner) children children' →
        children'.names = children.names := by
    intro children children' hrelated
    induction hrelated with
    | nil => rfl
    | cons hfirst _ ih => exact congrArg₂ List.cons hfirst.1 ih
  exact hnames (forall₂_of_rereadFields? tidy.isElement tidy.shape hread)

open Classical in
/-- **A node that is read as it was lasts.** -/
theorem lasts_of_same {v w : Value} (hv : IsTidy v) (hw : reread? prefixes scope v = some w)
    (hsame : w.same v = true) :
    lasts (fun name => isQualified name && (declaredPrefix? name).isNone &&
      decide (IsRenaming prefixes scope name)) v = true := by
  induction hv generalizing w with
  | @text s legible trimmed =>
    rw [reread?_atom rfl] at hw
    cases hw
    have hs : readText s = s := Value.same_text_iff.mp hsame
    have hnone : '\r' ∉ s.toList := hs ▸ not_mem_readText s
    simpa [lasts] using hnone
  | @object l tidy solid items ih =>
    rw [reread?_layout tidy] at hw
    obtain ⟨⟨inner, resolved⟩, hread, hw⟩ := Option.bind_eq_some_iff.mp hw
    obtain ⟨children', hchildren, rfl⟩ := Option.map_eq_some_iff.mp hw
    dsimp only at hchildren hsame
    rw [assembled] at hsame
    split at hsame
    · rw [Value.same_text_object] at hsame
      cases hsame
    have hlayout : (Value.object (Layout.fields
        ⟨named prefixes resolved, children', readText l.text⟩)).same (.object l.fields) = true :=
      hsame
    obtain ⟨hperm, htext, hbelow⟩ := Layout.of_same tidy (Fields.nodup_names_ofPairs _)
      (names_of_rereadFields? tidy hchildren) hlayout
    obtain ⟨hqualified, hbind, hresolved⟩ := of_attributesRead? hread
    have hlength : l.attributes.length ≤ (named prefixes resolved).length := by
      have := hperm.length_eq
      rw [Fields.names, Fields.names, List.length_map, List.length_map] at this
      exact this.ge
    have hnothing := declares_nothing_of_length hresolved hlength
    -- nothing is declared here, so that the names below have the same scope
    rw [bindAll?_of_declares_nothing hnothing, Option.some.injEq] at hbind
    subst hbind
    rw [lasts, fieldsLast_iff, forall_entryLasts_iff tidy]
    refine ⟨fun a ha => ?_, fun e he v hv => ?_, ?_⟩
    · have hmem : a.1 ∈ (named prefixes resolved).names :=
        hperm.mem_iff.mpr (List.mem_map_of_mem (f := Prod.fst) ha)
      have hrenaming := isRenaming_of_mem_named hqualified hresolved hmem
      simp [hqualified a ha, hnothing a ha, hrenaming]
    · obtain ⟨w, hw, hsame⟩ := exists_reread?_of_same tidy items hchildren hbelow e he v hv
      exact ih e he v hv hw hsame
    · have : readText l.text = l.text := htext
      exact this ▸ not_mem_readText l.text


end Read

/-! ### Names that stay -/

/-- The name of an attribute that was read again is one that stays. -/
theorem keepsPrefix_of_isRenaming {declared : Fields String} (honce : declared.names.Nodup)
    (hbind : ∀ d ∈ declared, mayBind d.1 d.2 = true)
    (hnames : ∀ d ∈ declared, d.1 = "" ∨ isName d.1.toList = true) {name : String}
    (h : IsRenaming (prefixesOf declared) (declared.reverse ++ [("xml", xmlNamespace)]) name) :
    keepsPrefix declared name = true := by
  have hsimple : ∀ name : String, isName name.toList = true → keepsPrefix declared name = true := by
    intro name hname
    rw [keepsPrefix, splitName_of_isName hname]
    rfl
  obtain ⟨other, hother, -, hrenamed⟩ := h
  rcases splitName_cases (isQualified_iff.mp hother) with
    ⟨hname, hsplit⟩ | ⟨pre, bare, hpre, hbare, -, hsplit⟩
  · have hresolve : ∀ scope, Xml.resolve? scope false other = some (clark "" other) := by
      intro scope
      rw [Xml.resolve?, hsplit]
      rfl
    rw [renamed?, hresolve, Option.map_some, attributeName_clark (by decide) (isWord_of_isName hname),
      Option.some.injEq] at hrenamed
    exact hsimple name (hrenamed ▸ hname)
  · have hne := ne_empty_of_isName hpre
    have hresolve : ∀ scope : Fields String, Xml.resolve? scope false other =
        (scope.get? pre).map fun uri => clark uri bare := by
      intro scope
      rw [Xml.resolve?, hsplit]
      split
      · next heq =>
        cases heq
        exact absurd rfl hne
      · next heq =>
        cases heq
        rfl
    rw [renamed?, hresolve, Option.map_map] at hrenamed
    obtain ⟨uri, huri, hrenamed⟩ := Option.map_eq_some_iff.mp hrenamed
    -- the namespace is that of a declaration, or the one bound in every document
    have hscope : (pre, uri) ∈ declared ∨ uri = xmlNamespace := by
      rcases List.mem_append.mp (Fields.mem_of_get? huri) with hmem | hmem
      · exact Or.inl (List.mem_reverse.mp hmem)
      · exact Or.inr (Prod.mk.inj (List.mem_singleton.mp hmem)).2
    have hclose : '\x7d' ∉ uri.toList := by
      rcases hscope with hmem | rfl
      · exact (of_mayBind (hbind _ hmem)).1
      · decide
    rw [Function.comp_apply, attributeName_clark hclose (isWord_of_isName hbare)] at hrenamed
    split at hrenamed
    · exact hsimple name (hrenamed ▸ hbare)
    · cases hlast : (prefixesOf declared).get? uri with
      | none =>
        rw [hlast] at hrenamed
        exact hsimple name (hrenamed ▸ hbare)
      | some last =>
        rw [hlast, Option.map_some, Option.getD_some] at hrenamed
        have hmem : (last, uri) ∈ declared ∧ last ≠ "" := by
          rcases of_get?_prefixesOf hlast with hmem | ⟨hknown, hnone⟩
          · exact hmem
          · rcases hscope with hmem | rfl
            · exact absurd rfl (hnone _ hmem hne)
            · have hxml : knownPrefixes.get? xmlNamespace = none := by decide
              rw [hxml] at hknown
              cases hknown
        have hlastName : isName last.toList = true := (hnames _ hmem.1).resolve_left hmem.2
        rw [← hrenamed, keepsPrefix_prefixed hmem.2 (splitName_append hlastName bare)]
        exact ⟨uri, Fields.get?_of_mem honce hmem.1, hlast⟩

theorem lasts_mono {ok ok' : String → Bool} (hok : ∀ name, ok name = true → ok' name = true)
    {v : Value} (hv : IsTidy v) (h : lasts ok v = true) : lasts ok' v = true := by
  induction hv with
  | text => exact h
  | @object l tidy solid items ih =>
    rw [lasts, fieldsLast_iff, forall_entryLasts_iff tidy] at h ⊢
    exact ⟨fun a ha => hok _ (h.1 a ha), fun e he v hv => ih e he v hv (h.2.1 e he v hv), h.2.2⟩

/-- **A root that is read as it was lasts.** -/
theorem rootLasts_of_same {name : String} (hname : repeatable.contains name = false) {l : Layout}
    (tidy : l.IsTidy) (items : ∀ e ∈ l.children, ∀ v ∈ itemsOf e.2, IsTidy v) {w : Value}
    (hw : rereadRoot? name (.object l.fields) = some w)
    (hsame : w.same (.object l.fields) = true) : rootLasts (.object l.fields) = true := by
  obtain ⟨v, hv, rfl⟩ := Option.map_eq_some_iff.mp hw
  rw [reread?_layout tidy] at hv
  obtain ⟨⟨inner, resolved⟩, hread, hv⟩ := Option.bind_eq_some_iff.mp hv
  obtain ⟨children', hchildren, rfl⟩ := Option.map_eq_some_iff.mp hv
  obtain ⟨hqualified, hbound, hresolved⟩ := of_attributesRead? hread
  obtain ⟨hbind, rfl⟩ := bindAll?_eq_some_iff.mp hbound
  dsimp only at hchildren hsame
  have hnames := names_of_rereadFields? tidy hchildren
  have helement := Layout.isElement_of_names_eq hnames tidy.isElement
  rw [listed, hname, Bool.false_and, if_neg (by simp),
    update_rootFields _ _ _ helement (hnames ▸ tidy.childrenOnce)] at hsame
  obtain ⟨hperm, htext, hbelow⟩ := Layout.of_same tidy
    (Fields.nodup_names_update (Fields.nodup_names_ofPairs _)) hnames hsame
  -- what is below the root is as it was, so that only the root declares namespaces
  have hlasting := fun e he v hv =>
    (exists_reread?_of_same tidy items hchildren hbelow e he v hv).elim fun _ h =>
      lasts_of_same (items e he v hv) h.1 h.2
  have hdeclared : (build name (.object l.fields)).declared = declaredBy l.attributes := by
    refine declared_build_layout tidy name fun e he v hv =>
      declared_build_of_lasts (fun name hname => ?_) (items e he v hv) (hlasting e he v hv) e.1
    simp only [Bool.and_eq_true, Option.isNone_iff_eq_none] at hname
    exact hname.1.2
  rw [hdeclared] at hperm hlasting
  have honce := nodup_names_declaredBy hqualified tidy.attributesOnce
  have hprefixes : ∀ d ∈ declaredBy l.attributes, d.1 = "" ∨ isName d.1.toList = true := by
    intro d hd
    obtain ⟨a, ha, hd⟩ := List.mem_filterMap.mp hd
    obtain ⟨pre, hpre, rfl⟩ := Option.map_eq_some_iff.mp hd
    exact (declarationName_of_declaredPrefix? (hqualified a ha) hpre).2
  have hkeeps : ∀ name, IsRenaming (prefixesOf (declaredBy l.attributes))
      ((declaredBy l.attributes).reverse ++ [("xml", xmlNamespace)]) name →
        keepsPrefix (declaredBy l.attributes) name = true :=
    fun name hname => keepsPrefix_of_isRenaming honce hbind hprefixes hname
  rw [rootLasts, tidy.attributesAmong, Bool.and_eq_true, List.all_eq_true, List.all_eq_true,
    forall_entryLasts_iff tidy]
  refine ⟨hbind, fun a ha => ?_, fun e he v hv => ?_, ?_⟩
  · rw [rootAttributeLasts, hqualified a ha, Bool.true_and]
    cases hown : declaredPrefix? a.1 with
    | some pre => rfl
    | none =>
      have hmem := hperm.mem_iff.mpr (List.mem_map_of_mem (f := Prod.fst) ha)
      obtain ⟨e, he, heq⟩ := List.mem_map.mp hmem
      rw [declarationsOf_declaredBy hqualified tidy.attributesOnce] at he
      rcases Fields.mem_update he with he | he
      · have hdeclaring := (List.mem_filter.mp he).2
        rw [heq, hown] at hdeclaring
        cases hdeclaring
      · have hrenamed := isRenaming_of_mem_named hqualified hresolved
          (List.mem_map_of_mem (f := Prod.fst) he)
        rw [heq] at hrenamed
        exact hkeeps _ hrenamed
  · refine lasts_mono (fun name hname => ?_) (items e he v hv) (hlasting e he v hv)
    simp only [Bool.and_eq_true, decide_eq_true_eq] at hname
    rw [attributeLasts, hname.1.1, hname.1.2, hkeeps _ hname.2]
    rfl
  · have : readText l.text = l.text := htext
    exact this ▸ not_mem_readText l.text

/-! ### Roots that may repeat -/

/-- A text in the place of a root. -/
theorem update_rootFields_text {s : String} (solid : s.isEmpty = false) :
    Fields.update (namespaceFields []) (rootFields (.text s)) = [(textField, .text s)] := by
  rw [rootFields, Value.isHollow, solid]
  · rfl
  · intro fields h
    cases h

/-- **A root that may repeat is not read as it was.** -/
theorem not_same_of_repeatable {name : String} (hname : repeatable.contains name = true)
    {l : Layout} (tidy : l.IsTidy) {w : Value}
    (hw : rereadRoot? name (.list [.object l.fields]) = some w) :
    w.same (.list [.object l.fields]) = false := by
  have hdeclared : (build name (.list [.object l.fields])).declared = [] := by
    rw [build_atom _ rfl]
    rfl
  rw [rereadRoot?, hdeclared, reread?_atom rfl, Option.map_some, Option.some.injEq, listed, hname]
    at hw
  generalize hs : readText (Value.list [.object l.fields]).shownOrEmpty = s at hw
  have hcount : s.toList.count '[' = (Value.list [.object l.fields]).literal.toList.count '[' := by
    rw [← hs, count_readText]
    rfl
  have hliteral : 1 ≤ (Value.list [.object l.fields]).literal.toList.count '[' := by
    rw [literal_list, String.toList_append, String.toList_append, List.count_append,
      List.count_append]
    exact Nat.le_add_right_of_le (Nat.le_add_right_of_le (by decide))
  have hsolid : s.isEmpty = false := by
    cases hempty : s.isEmpty with
    | false => rfl
    | true =>
      rw [String.isEmpty_iff.mp hempty] at hcount
      rw [← hcount] at hliteral
      exact absurd hliteral (by decide)
  cases hsame : w.same (.list [.object l.fields]) with
  | false => rfl
  | true =>
    -- then the literal would be the text that stands in it
    have hfields : (Value.object [(textField, .text s)]).same (.object l.fields) = true := by
      subst hw
      obtain ⟨w, ws, hhead, -, hitems⟩ :=
        List.forall₂_cons_left_iff.mp (Value.same_list_iff.mp hsame)
      cases hitems
      rwa [update_rootFields_text hsolid] at hhead
    obtain ⟨hlength, hget⟩ := Value.same_object_iff.mp hfields
    obtain ⟨w', hw', htext⟩ := hget _ List.mem_cons_self
    have hmem := Fields.mem_of_get? hw'
    rw [Layout.get?_fields_textField tidy.isElement] at hw'
    split at hw'
    · cases hw'
    cases hw'
    have htext : s = l.text := Value.same_text_iff.mp htext
    obtain ⟨e, he⟩ := List.length_eq_one_iff.mp hlength.symm
    rw [he, List.mem_singleton] at hmem
    rw [he, ← hmem, literal_list, List.map_singleton, literal_object, List.map_singleton] at hcount
    have := count_le_count_quoted s
    simp only [Value.commaJoined, String.intercalate_singleton, Value.literal,
      String.toList_append, List.count_append, ← htext] at hcount
    have hbracket : ("[").toList.count '[' = 1 := rfl
    omega

/-! ### Documents -/

theorem same_self_of_itemsOf {v : Value} (h : ∀ w ∈ itemsOf v, w.same w = true) :
    v.same v = true := by
  cases v with
  | list items => exact Value.same_list_iff.mpr (List.forall₂_same.mpr h)
  | _ => exact h _ List.mem_cons_self

/-- Every field of a layout is the same as itself, if what is below is. -/
theorem Layout.same_self_of_mem_fields {l : Layout}
    (items : ∀ e ∈ l.children, ∀ v ∈ itemsOf e.2, v.same v = true) :
    ∀ e ∈ l.fields, e.2.same e.2 = true := by
  refine List.forall_mem_append.mpr ⟨List.forall_mem_append.mpr ⟨?_, ?_⟩, ?_⟩
  · rintro _ he
    obtain ⟨a, -, rfl⟩ := List.mem_map.mp he
    exact Value.same_text_iff.mpr rfl
  · exact fun e he => same_self_of_itemsOf (items e he)
  · intro e he
    rw [eq_of_mem_textFields he]
    exact Value.same_text_iff.mpr rfl

/-- A tidy node is the same as itself. -/
theorem same_self {v : Value} (hv : IsTidy v) : v.same v = true := by
  induction hv with
  | text => exact Value.same_text_iff.mpr rfl
  | object tidy _ _ ih =>
    exact Value.same_of_perm (.refl _) tidy.nodup_names_fields (Layout.same_self_of_mem_fields ih)

theorem same_root_iff {name : String} {v w : Value} :
    (Value.object [(name, v)]).same (.object [(name, w)]) = true ↔ v.same w = true := by
  simp [Value.same_object_iff, Fields.get?]

/-- Whether writing a tree and reading it leaves it as it is. -/
def isLasting (tree : Value) : Bool :=
  match rootsOf tree with
  | [(_, value)] => rootLasts value
  | _ => false

/-- What becomes of a root decides what becomes of its tree. -/
theorem serialize_parse_same_iff {name : String} {v : Value} (hname : isName name.toList = true)
    (hv : IsWritable v) : (∃ again, serialize (.object [(name, v)]) >>= parse = .ok again ∧
      again.same (.object [(name, v)]) = true) ↔
        ∃ w, rereadRoot? name v = some w ∧ w.same v = true := by
  rw [parse_serialize hname hv]
  cases rereadRoot? name v with
  | none => simp
  | some w => simp [same_root_iff]

/-- **The tree of a document is read as it was exactly if it lasts.** -/
theorem parse_serialize_of_parse_iff {xml : String} {tree : Value} (h : parse xml = .ok tree) :
    (∃ again, serialize tree >>= parse = .ok again ∧ again.same tree = true) ↔
      isLasting tree = true := by
  obtain ⟨name, hname, l, tidy, items, rfl⟩ := exists_layout_of_parse h
  cases hrepeat : repeatable.contains name with
  | true =>
    -- the root is a list, and its literal is read
    have hlisted : listed name (.object l.fields) = .list [.object l.fields] := by
      rw [listed, hrepeat]
      rfl
    rw [hlisted, serialize_parse_same_iff hname (tidy.isWritable_list items)]
    constructor
    · rintro ⟨w, hw, hsame⟩
      rw [not_same_of_repeatable hrepeat tidy hw] at hsame
      cases hsame
    · intro hlasts
      cases hlasts
  | false =>
    have hlisted : ∀ v, listed name v = v := by
      intro v
      rw [listed, hrepeat]
      rfl
    rw [hlisted, serialize_parse_same_iff hname
      (tidy.isWritable fun e he v hv => (items e he v hv).isWritable)]
    constructor
    · rintro ⟨w, hw, hsame⟩
      exact rootLasts_of_same hrepeat tidy items hw hsame
    · intro hlasts
      obtain ⟨l', hperm, hw⟩ := rereadRoot?_of_rootLasts name tidy items hlasts
      rw [hlisted] at hw
      exact ⟨_, hw, Value.same_of_perm hperm tidy.nodup_names_fields
        (Layout.same_self_of_mem_fields fun e he v hv => same_self (items e he v hv))⟩

set_option maxRecDepth 4000 in
/-- A document that declares a namespace on its root, of one journey, is read as it was. -/
theorem parse_serialize_journeys : ∃ tree,
    parse "<p:UserJourneys xmlns:p=\"urn:p\"><UserJourney p:Id=\"SignIn\"/></p:UserJourneys>" =
      .ok tree ∧ ∃ again, serialize tree >>= parse = .ok again ∧ again.same tree = true := by
  have hlasts : (parse
      "<p:UserJourneys xmlns:p=\"urn:p\"><UserJourney p:Id=\"SignIn\"/></p:UserJourneys>"
      ).toOption.any isLasting = true := by
    decide +kernel
  obtain ⟨tree, htree, hlasts⟩ := exists_eq_ok_of_any hlasts
  exact ⟨tree, htree, (parse_serialize_of_parse_iff htree).mpr hlasts⟩

set_option maxRecDepth 4000 in
/-- A document of one journey is not read as it was. -/
theorem parse_serialize_journey_differs : ∃ tree,
    parse "<UserJourney Id=\"SignIn\"/>" = .ok tree ∧
      ¬ ∃ again, serialize tree >>= parse = .ok again ∧ again.same tree = true := by
  have hdiffers : (parse "<UserJourney Id=\"SignIn\"/>").toOption.any (fun tree =>
      (serialize tree >>= parse).toOption.all fun again => !again.same tree) = true := by
    decide +kernel
  obtain ⟨tree, htree, hdiffers⟩ := exists_eq_ok_of_any hdiffers
  refine ⟨tree, htree, fun ⟨again, hagain, hsame⟩ => ?_⟩
  rw [hagain, Except.toOption, Option.all_some, hsame] at hdiffers
  cases hdiffers

end Tree
end Policy

end TrustFramework
