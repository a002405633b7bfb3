import TrustFramework.Proofs.Policy.Layout

/-!
# Trees that last

A tree lasts if writing and reading leave it as it is.  Three things stand in the way: a carriage
return in a text comes back as a line feed; an attribute whose prefix is not the one by which its
namespace was declared last comes back with that one; and a declaration below the root goes to
the root.  Where none of them is met, every node is read as it was.

## Main definitions

* `keepsPrefix` — the prefix of an attribute is the one by which its namespace was declared last.
* `lasts` — the texts of a node have no carriage returns, and its attributes keep their names;
  `rootLasts` says so of a root with its declarations.

## Main results

* `reread?_of_lasts` — **a tidy node that lasts is read as it was.**
* `rereadRoot?_of_rootLasts` — **so is a root, but for the order of its attributes.**
-/

namespace TrustFramework

open Xml

namespace Policy
namespace Tree

/-! ### What lasts -/

/-- Whether the prefix of an attribute is the one by which its namespace was declared last. -/
def keepsPrefix (declared : Fields String) (name : String) : Bool :=
  match splitName name with
  | ("", _) => true
  | (pre, _) => (declared.get? pre).any fun uri => (prefixesOf declared).get? uri == some pre

/-- Whether an attribute below the root comes back as it was. -/
def attributeLasts (declared : Fields String) (name : String) : Bool :=
  isQualified name && (declaredPrefix? name).isNone && keepsPrefix declared name

/-- Whether an attribute of the root does. -/
def rootAttributeLasts (declared : Fields String) (name : String) : Bool :=
  isQualified name && ((declaredPrefix? name).isSome || keepsPrefix declared name)

/-- Whether a field of a node lasts, given which attributes and nodes do. -/
def entryLasts (ok : String → Bool) (below : Value → Bool) (e : String × Value) : Bool :=
  match attributeOf? e.1 with
  | some name => ok name
  | none => below e.2

mutual
/-- Whether the texts of a node have no carriage returns, and its attributes keep their names. -/
def lasts (ok : String → Bool) : Value → Bool
  | .text s => !s.toList.contains '\r'
  | .list items => itemsLast ok items
  | .object fields => fieldsLast ok fields
  | _ => true

/-- Whether all items last. -/
def itemsLast (ok : String → Bool) : List Value → Bool
  | [] => true
  | v :: rest => lasts ok v && itemsLast ok rest

/-- Whether all fields last. -/
def fieldsLast (ok : String → Bool) : List (String × Value) → Bool
  | [] => true
  | (field, v) :: rest =>
    (match attributeOf? field with
      | some name => ok name
      | none => lasts ok v) && fieldsLast ok rest
end

/-- Whether the root of a tree lasts, with the namespaces that it declares. -/
def rootLasts : Value → Bool
  | .object fields =>
    let declared := declaredBy (attributesAmong fields)
    (declared.all fun d => mayBind d.1 d.2) &&
      fields.all (entryLasts (rootAttributeLasts declared) (lasts (attributeLasts declared)))
  | _ => false

section Lasts

variable {ok : String → Bool}

theorem itemsLast_iff {items : List Value} :
    itemsLast ok items = true ↔ ∀ v ∈ items, lasts ok v = true := by
  induction items with
  | nil => simp [itemsLast]
  | cons v items ih => simp [itemsLast, ih]

theorem fieldsLast_iff {fields : Fields Value} :
    fieldsLast ok fields = true ↔ ∀ e ∈ fields, entryLasts ok (lasts ok) e = true := by
  induction fields with
  | nil => simp [fieldsLast]
  | cons e fields ih =>
    obtain ⟨field, v⟩ := e
    simp [fieldsLast, ih, entryLasts]

theorem lasts_iff_itemsOf {v : Value} : lasts ok v = true ↔ ∀ w ∈ itemsOf v, lasts ok w = true := by
  cases v with
  | list items => rw [lasts, itemsLast_iff, itemsOf]
  | _ => simp [itemsOf]

theorem entryLasts_textFields {top : String → Bool} {s : String} :
    (∀ e ∈ textFields s, entryLasts top (lasts ok) e = true) ↔ '\r' ∉ s.toList := by
  unfold textFields
  split
  · next h =>
    rw [String.isEmpty_iff.mp h]
    simp
  · simp [entryLasts, attributeOf?_textField, lasts]

/-- A layout lasts if each of its parts does. -/
theorem forall_entryLasts_iff {top : String → Bool} {l : Layout} (h : l.IsTidy) :
    (∀ e ∈ l.fields, entryLasts top (lasts ok) e = true) ↔
      (∀ a ∈ l.attributes, top a.1 = true) ∧
        (∀ e ∈ l.children, ∀ v ∈ itemsOf e.2, lasts ok v = true) ∧ '\r' ∉ l.text.toList := by
  have hattributes : (∀ e ∈ asFields l.attributes, entryLasts top (lasts ok) e = true) ↔
      ∀ a ∈ l.attributes, top a.1 = true := by
    simp only [asFields, List.forall_mem_map, entryLasts, attributeOf?_attributeField]
  have hbelow : ∀ e : String × Value, attributeOf? e.1 = none →
      (entryLasts top (lasts ok) e = true ↔ lasts ok e.2 = true) := by
    intro e he
    simp [entryLasts, he]
  have hchildren : (∀ e ∈ l.children, entryLasts top (lasts ok) e = true) ↔
      ∀ e ∈ l.children, ∀ v ∈ itemsOf e.2, lasts ok v = true := by
    refine forall₂_congr fun e he => ?_
    rw [hbelow e (attributeOf?_eq_none_of_isElement (h.isElement e he)), lasts_iff_itemsOf]
  rw [Layout.fields, List.forall_mem_append, List.forall_mem_append, hattributes, hchildren,
    entryLasts_textFields, and_assoc]

end Lasts

/-! ### Texts -/

theorem readText_eq_self {s : String} (htrim : Text.trim s = s) (h : '\r' ∉ s.toList) :
    readText s = s := by
  rw [readText, Text.withLineFeeds, Text.settleLineEnds_eq_self h, String.ofList_toList, htrim]

theorem not_mem_readText (s : String) : '\r' ∉ (readText s).toList := by
  intro hmem
  rw [readText, Text.trim, String.toList_ofList, Text.trimmed, List.mem_reverse] at hmem
  have hmem := (List.dropWhile_sublist _).subset (List.mem_reverse.mp
    ((List.dropWhile_sublist _).subset hmem))
  rw [Text.withLineFeeds, String.toList_ofList] at hmem
  exact Text.not_mem_settleLineEnds _ hmem

/-! ### Attributes -/

/-- The attributes that declare no namespace. -/
def ownOf (attributes : Fields String) : Fields String :=
  attributes.filter fun a => (declaredPrefix? a.1).isNone

/-- The name of an attribute as it is read again. -/
def renamed? (prefixes : Prefixes) (scope : Fields String) (name : String) : Option String :=
  (Xml.resolve? scope false name).map (attributeName prefixes)

section Attributes

variable {prefixes : Prefixes} {scope inner : Fields String} {attributes : Fields String}

theorem allDistinct_iff {names : List String} : allDistinct names = true ↔ names.Nodup := by
  induction names with
  | nil => simp [allDistinct]
  | cons name names ih => simp [allDistinct, ih]

theorem bindAll?_of_declares_nothing (h : ∀ a ∈ attributes, declaredPrefix? a.1 = none) :
    bindAll? scope attributes = some scope := by
  induction attributes with
  | nil => rfl
  | cons a attributes ih =>
    obtain ⟨name, value⟩ := a
    rw [List.forall_mem_cons] at h
    have hname : declaredPrefix? name = none := h.1
    rw [bindAll?, hname]
    exact ih h.2

theorem ownOf_of_declares_nothing (h : ∀ a ∈ attributes, declaredPrefix? a.1 = none) :
    ownOf attributes = attributes :=
  List.filter_eq_self.mpr fun a ha => by rw [h a ha]; rfl

/-- Attributes whose names stay are read with these names. -/
theorem exists_resolveAll? (h : ∀ a ∈ ownOf attributes, renamed? prefixes inner a.1 = some a.1) :
    ∃ resolved, resolveAll? inner attributes = some resolved ∧
      resolved.map (fun a => (attributeName prefixes a.1, a.2)) = ownOf attributes := by
  induction attributes with
  | nil => exact ⟨[], rfl, rfl⟩
  | cons a attributes ih =>
    obtain ⟨name, value⟩ := a
    rw [resolveAll?]
    cases hdeclared : declaredPrefix? name with
    | some pre =>
      have hskip : ownOf ((name, value) :: attributes) = ownOf attributes :=
        List.filter_cons_of_neg (by simp [hdeclared])
      rw [hskip] at h ⊢
      exact ih h
    | none =>
      have hown : ownOf ((name, value) :: attributes) = (name, value) :: ownOf attributes :=
        List.filter_cons_of_pos (by simp [hdeclared])
      rw [hown, List.forall_mem_cons] at h
      obtain ⟨rest, hrest, hnames⟩ := ih h.2
      obtain ⟨name', hresolve, hname⟩ := Option.map_eq_some_iff.mp h.1
      refine ⟨(name', value) :: rest, ?_, ?_⟩
      · dsimp only at hresolve
        simp [hresolve, hrest]
      · rw [List.map_cons, hnames, hown]
        exact congrArg (· :: _) (Prod.ext hname rfl)

theorem exists_attributesRead? (hqualified : ∀ a ∈ attributes, isQualified a.1 = true)
    (honce : attributes.names.Nodup) (hbind : bindAll? scope attributes = some inner)
    (h : ∀ a ∈ ownOf attributes, renamed? prefixes inner a.1 = some a.1) :
    ∃ resolved, attributesRead? scope attributes = some (inner, resolved) ∧
      named prefixes resolved = ownOf attributes := by
  obtain ⟨resolved, hresolved, hnames⟩ := exists_resolveAll? h
  have hown : (Fields.names (ownOf attributes)).Nodup :=
    (List.filter_sublist.map Prod.fst).nodup honce
  have hdistinct : (resolved.map Prod.fst).Nodup := by
    rw [← hnames, Fields.names, List.map_map] at hown
    have : (resolved.map Prod.fst).map (attributeName prefixes) =
        resolved.map (Prod.fst ∘ fun a => (attributeName prefixes a.1, a.2)) := by
      rw [List.map_map]
      rfl
    rw [← this] at hown
    exact hown.of_map _
  refine ⟨resolved, ?_, ?_⟩
  · have hall : (attributes.all fun a => isQualified a.1) = true := List.all_eq_true.mpr hqualified
    have hfirst : allDistinct (attributes.map Prod.fst) = true := allDistinct_iff.mpr honce
    have hsecond : allDistinct (resolved.map Prod.fst) = true := allDistinct_iff.mpr hdistinct
    unfold attributesRead?
    simp [hall, hfirst, hbind, hresolved, hsecond]
  · rw [named, hnames, Fields.ofPairs_of_nodup hown]

end Attributes

/-! ### Nodes -/

section Nodes

variable {prefixes : Prefixes} {scope : Fields String}

/-- Only the fields that hold elements count for the children. -/
theorem rereadFields?_childrenAmong (fields : Fields Value) :
    rereadFields? prefixes scope fields = rereadFields? prefixes scope (childrenAmong fields) := by
  induction fields with
  | nil => rfl
  | cons e fields ih =>
    obtain ⟨field, v⟩ := e
    rw [rereadFields?_cons]
    cases hfield : isElement field with
    | false =>
      have hskip : childrenAmong ((field, v) :: fields) = childrenAmong fields :=
        List.filter_cons_of_neg (by simpa using hfield)
      rw [hskip, ih]
      rfl
    | true =>
      have hcons : childrenAmong ((field, v) :: fields) = (field, v) :: childrenAmong fields :=
        List.filter_cons_of_pos (by simpa using hfield)
      rw [hcons, rereadFields?_cons, hfield, ih]

theorem reread?_layout {l : Layout} (h : l.IsTidy) :
    reread? prefixes scope (.object l.fields) =
      (attributesRead? scope l.attributes).bind fun read =>
        (rereadFields? prefixes read.1 l.children).map fun children =>
          assembled (asFields (named prefixes read.2)) children (readText l.text) := by
  rw [reread?, h.attributesAmong, h.textAmong]
  congr 1
  funext read
  obtain ⟨inner, attributes⟩ := read
  dsimp only
  rw [rereadFields?_childrenAmong l.fields, h.childrenAmong, attributeFields_eq]

theorem rereadItems?_eq_self {items : List Value}
    (h : ∀ v ∈ items, reread? prefixes scope v = some v) :
    rereadItems? prefixes scope items = some items := by
  induction items with
  | nil => rfl
  | cons v items ih =>
    rw [List.forall_mem_cons] at h
    rw [rereadItems?_cons, h.1, ih h.2]
    rfl

theorem rereadFields?_eq_self {children : Fields Value}
    (helement : ∀ e ∈ children, isElement e.1 = true)
    (hshape : ∀ e ∈ children, grouped e.1 (itemsOf e.2) = [e])
    (h : ∀ e ∈ children, ∀ v ∈ itemsOf e.2, reread? prefixes scope v = some v) :
    rereadFields? prefixes scope children = some children := by
  induction children with
  | nil => rfl
  | cons e children ih =>
    obtain ⟨field, v⟩ := e
    rw [List.forall_mem_cons] at helement hshape h
    have hfield : isElement field = true := helement.1
    rw [rereadFields?_cons, hfield, if_pos rfl, rereadItems?_eq_self h.1, Option.bind_some,
      ih helement.2 hshape.2 h.2, Option.map_some, hshape.1, List.singleton_append]

/-- **A tidy node that lasts is read as it was.** -/
theorem reread?_of_lasts {ok : String → Bool}
    (hok : ∀ name, ok name = true → isQualified name = true ∧ declaredPrefix? name = none ∧
      renamed? prefixes scope name = some name) {v : Value} (hv : IsTidy v)
    (h : lasts ok v = true) : reread? prefixes scope v = some v := by
  induction hv with
  | @text s legible trimmed =>
    have hs : '\r' ∉ s.toList := by simpa [lasts] using h
    rw [reread?_atom rfl]
    exact congrArg _ (congrArg _ (readText_eq_self trimmed hs))
  | @object l tidy solid items ih =>
    rw [lasts, fieldsLast_iff, forall_entryLasts_iff tidy] at h
    obtain ⟨hattributes, hchildren, htext⟩ := h
    have hown := ownOf_of_declares_nothing fun a ha => (hok _ (hattributes a ha)).2.1
    have hnames : ∀ a ∈ ownOf l.attributes, renamed? prefixes scope a.1 = some a.1 :=
      fun a ha => (hok _ (hattributes a (hown ▸ ha))).2.2
    obtain ⟨resolved, hread, hnamed⟩ := exists_attributesRead?
      (fun a ha => (hok _ (hattributes a ha)).1) tidy.attributesOnce
      (bindAll?_of_declares_nothing fun a ha => (hok _ (hattributes a ha)).2.1) hnames
    have hbelow := rereadFields?_eq_self tidy.isElement tidy.shape fun e he v hv =>
      ih e he v hv (hchildren e he v hv)
    rw [reread?_layout tidy, hread, Option.bind_some, hbelow, Option.map_some, hnamed, hown,
      readText_eq_self tidy.trimmed htext, assembled, if_neg (by simpa [asFields] using solid)]
    rfl

end Nodes

/-! ### Declarations -/

/-- The attributes that declare namespaces. -/
def declaringOf (attributes : Fields String) : Fields String :=
  attributes.filter fun a => (declaredPrefix? a.1).isSome

section Declarations

variable {attributes : Fields String} {scope inner : Fields String}

/-- The name of a declaring attribute is told by the prefix that it declares. -/
theorem declarationName_of_declaredPrefix? {name pre : String} (h : isQualified name = true)
    (hpre : declaredPrefix? name = some pre) :
    declarationName pre = name ∧ (pre = "" ∨ isName pre.toList = true) := by
  unfold declaredPrefix? at hpre
  split at hpre
  · next heq =>
    cases hpre
    exact ⟨heq.symm, Or.inl rfl⟩
  · split at hpre
    · next rest heq =>
      cases hpre
      rcases splitName_cases (isQualified_iff.mp h) with ⟨-, hsplit⟩ | ⟨pre, bare, -, hbare, hname, hsplit⟩
      · rw [hsplit, Prod.mk.injEq] at heq
        exact absurd heq.1 (by decide)
      · rw [hsplit, Prod.mk.injEq] at heq
        obtain ⟨rfl, rfl⟩ := heq
        have hsolid : bare.isEmpty = false := by
          simpa using ne_empty_of_isName hbare
        refine ⟨?_, Or.inr hbare⟩
        rw [declarationName, hsolid, if_neg (by simp), hname]
        rfl
    · cases hpre

theorem map_declaredBy (h : ∀ a ∈ attributes, isQualified a.1 = true) :
    (declaredBy attributes).map (fun d => (declarationName d.1, d.2)) = declaringOf attributes := by
  induction attributes with
  | nil => rfl
  | cons a attributes ih =>
    obtain ⟨name, value⟩ := a
    rw [List.forall_mem_cons] at h
    have hrest := ih h.2
    unfold declaredBy declaringOf at hrest ⊢
    cases hpre : declaredPrefix? name with
    | none =>
      rw [List.filterMap_cons_none (by simp [hpre]), List.filter_cons_of_neg (by simp [hpre]), hrest]
    | some pre =>
      rw [List.filterMap_cons_some (b := (pre, value)) (by simp [hpre]),
        List.filter_cons_of_pos (by simp [hpre]), List.map_cons, hrest,
        (declarationName_of_declaredPrefix? h.1 hpre).1]

theorem nodup_names_declaredBy (h : ∀ a ∈ attributes, isQualified a.1 = true)
    (honce : attributes.names.Nodup) : (Fields.names (declaredBy attributes)).Nodup := by
  have hdeclaring : (Fields.names (declaringOf attributes)).Nodup :=
    (List.filter_sublist.map Prod.fst).nodup honce
  rw [← map_declaredBy h, Fields.names, List.map_map] at hdeclaring
  have hnames : (declaredBy attributes).map (Prod.fst ∘ fun d => (declarationName d.1, d.2)) =
      (Fields.names (declaredBy attributes)).map declarationName := by
    rw [Fields.names, List.map_map]
    rfl
  rw [hnames] at hdeclaring
  exact hdeclaring.of_map _

theorem declarationsOf_declaredBy (h : ∀ a ∈ attributes, isQualified a.1 = true)
    (honce : attributes.names.Nodup) :
    declarationsOf (declaredBy attributes) = declaringOf attributes := by
  have hdeclaring : (Fields.names (declaringOf attributes)).Nodup :=
    (List.filter_sublist.map Prod.fst).nodup honce
  rw [declarationsOf, map_declaredBy h, Fields.ofPairs_of_nodup hdeclaring]

/-- The namespaces in scope below are those declared, in front of the ones above. -/
theorem bindAll?_eq_some_iff : bindAll? scope attributes = some inner ↔
    (∀ d ∈ declaredBy attributes, mayBind d.1 d.2 = true) ∧
      inner = (declaredBy attributes).reverse ++ scope := by
  induction attributes generalizing scope with
  | nil =>
    have hnothing : declaredBy [] = [] := rfl
    rw [bindAll?, hnothing, Option.some.injEq, List.reverse_nil, List.nil_append]
    exact ⟨fun h => ⟨by simp, h.symm⟩, fun h => h.2.symm⟩
  | cons a attributes ih =>
    obtain ⟨name, value⟩ := a
    rw [bindAll?]
    cases hpre : declaredPrefix? name with
    | none =>
      have hskip : declaredBy ((name, value) :: attributes) = declaredBy attributes :=
        List.filterMap_cons_none (by simp [hpre])
      rw [hskip]
      exact ih
    | some pre =>
      have hcons : declaredBy ((name, value) :: attributes) =
          (pre, value) :: declaredBy attributes :=
        List.filterMap_cons_some (by simp [hpre])
      rw [hcons, List.forall_mem_cons]
      cases hbind : mayBind pre value with
      | false => simp [hbind]
      | true => simp [hbind, ih]

end Declarations

/-! ### Prefixes -/

section Prefixes

variable {declared : Fields String}

/-- The prefix of a namespace is one that was declared for it, or else a known one. -/
theorem of_get?_prefixesOf {uri pre : String} (h : (prefixesOf declared).get? uri = some pre) :
    (pre, uri) ∈ declared ∧ pre ≠ "" ∨
      knownPrefixes.get? uri = some pre ∧ ∀ d ∈ declared, d.1 ≠ "" → d.2 ≠ uri := by
  have hfold : ∀ (ds : List (String × String)) (prefixes : Prefixes),
      (ds.foldl (fun acc d => acc.set d.2 d.1) prefixes).get? uri = some pre →
        (pre, uri) ∈ ds ∨ prefixes.get? uri = some pre ∧ ∀ d ∈ ds, d.2 ≠ uri := by
    intro ds
    induction ds with
    | nil => exact fun prefixes hget => Or.inr ⟨hget, by simp⟩
    | cons d ds ih =>
      intro prefixes hget
      rcases ih _ hget with hmem | ⟨hget, hrest⟩
      · exact Or.inl (List.mem_cons_of_mem _ hmem)
      · dsimp only at hget
        by_cases hd : d.2 = uri
        · rw [hd, Fields.get?_set_self, Option.some.injEq] at hget
          exact Or.inl (List.mem_cons.mpr (Or.inl (Prod.ext hget.symm hd.symm)))
        · rw [Fields.get?_set_of_ne _ _ (Ne.symm hd)] at hget
          exact Or.inr ⟨hget, List.forall_mem_cons.mpr ⟨hd, hrest⟩⟩
  rcases hfold _ _ h with hmem | ⟨hget, hrest⟩
  · obtain ⟨hmem, hpre⟩ := List.mem_filter.mp hmem
    refine Or.inl ⟨hmem, ?_⟩
    rintro rfl
    simp at hpre
  · refine Or.inr ⟨hget, fun d hd hpre => hrest d (List.mem_filter.mpr ⟨hd, ?_⟩)⟩
    simpa using hpre

/-- What is declared on the root is in scope below. -/
theorem get?_scope_of_get? (honce : declared.names.Nodup) {pre uri : String}
    (h : declared.get? pre = some uri) :
    Fields.get? (declared.reverse ++ [("xml", xmlNamespace)]) pre = some uri := by
  have hreverse : Fields.get? declared.reverse pre = some uri := by
    refine Fields.get?_of_mem ?_ (List.mem_reverse.mpr (Fields.mem_of_get? h))
    rw [Fields.names, List.map_reverse]
    exact List.nodup_reverse.mpr honce
  exact Fields.get?_append_of_eq_some hreverse _

theorem attributeName_clark {prefixes : Prefixes} {uri bare : String} (huri : '\x7d' ∉ uri.toList)
    (hbare : isWord bare.toList = true) : attributeName prefixes (clark uri bare) =
      if uri.isEmpty then bare
      else ((prefixes.get? uri).map fun pre => pre ++ ":" ++ bare).getD bare := by
  simp only [attributeName, splitClark_clark huri (head?_ne_of_isWord hbare)]
  cases prefixes.get? uri <;> rfl

theorem keepsPrefix_prefixed {name pre bare : String} (hpre : pre ≠ "")
    (hsplit : splitName name = (pre, bare)) : keepsPrefix declared name = true ↔
      ∃ uri, declared.get? pre = some uri ∧ (prefixesOf declared).get? uri = some pre := by
  rw [keepsPrefix, hsplit]
  split
  · next heq =>
    cases heq
    exact absurd rfl hpre
  · next heq =>
    cases heq
    simp [Option.any_eq_true]

theorem of_mayBind {pre uri : String} (h : mayBind pre uri = true) :
    '\x7d' ∉ uri.toList ∧ (pre ≠ "" → uri ≠ "") := by
  simp only [mayBind, Bool.and_eq_true, Bool.not_eq_true', List.contains_eq_mem,
    decide_eq_false_iff_not] at h
  refine ⟨h.1.1.2, ?_⟩
  rintro hpre rfl
  have := h.1.1.1.1
  simp [hpre] at this

/-- An attribute that keeps its prefix keeps its name. -/
theorem renamed?_of_keepsPrefix (honce : declared.names.Nodup)
    (hbind : ∀ d ∈ declared, mayBind d.1 d.2 = true) {name : String}
    (hname : isQualified name = true) (h : keepsPrefix declared name = true) :
    renamed? (prefixesOf declared) (declared.reverse ++ [("xml", xmlNamespace)]) name =
      some name := by
  rcases splitName_cases (isQualified_iff.mp hname) with
    ⟨hsimple, hsplit⟩ | ⟨pre, bare, hpre, hbare, hwhole, hsplit⟩
  · have hresolve : ∀ scope, Xml.resolve? scope false name = some (clark "" name) := by
      intro scope
      rw [Xml.resolve?, hsplit]
      rfl
    rw [renamed?, hresolve, Option.map_some, attributeName_clark (by decide) (isWord_of_isName hsimple)]
    rfl
  · have hne := ne_empty_of_isName hpre
    obtain ⟨uri, hget, hback⟩ := (keepsPrefix_prefixed hne hsplit).mp h
    obtain ⟨hclose, hsolid⟩ := of_mayBind (hbind _ (Fields.mem_of_get? hget))
    have hresolve : Xml.resolve? (declared.reverse ++ [("xml", xmlNamespace)]) false name =
        some (clark uri bare) := by
      rw [Xml.resolve?, hsplit]
      split
      · next heq =>
        cases heq
        exact absurd rfl hne
      · next heq =>
        cases heq
        rw [get?_scope_of_get? honce hget, Option.map_some]
    have huri : uri.isEmpty = false := by simpa using hsolid hne
    rw [renamed?, hresolve, Option.map_some, attributeName_clark hclose (isWord_of_isName hbare), huri,
      if_neg (by simp), hback, hwhole]
    rfl

end Prefixes

/-! ### Roots -/

theorem declaredAll_eq_nil {es : List Element} (h : ∀ e ∈ es, e.declared = []) :
    Element.declaredAll es = [] := by
  induction es with
  | nil => rw [Element.declaredAll]
  | cons e es ih =>
    rw [List.forall_mem_cons] at h
    rw [Element.declaredAll, h.1, ih h.2, List.append_nil]

theorem declaredAll_buildFields {fields : Fields Value}
    (h : ∀ e ∈ childrenAmong fields, ∀ v ∈ itemsOf e.2, (build e.1 v).declared = []) :
    Element.declaredAll (buildFields fields) = [] := by
  rw [buildFields_eq_flatMap]
  refine declaredAll_eq_nil fun e he => ?_
  obtain ⟨entry, hentry, he⟩ := List.mem_flatMap.mp he
  obtain ⟨v, hv, rfl⟩ := List.mem_map.mp he
  exact h entry hentry v hv

/-- A node declares nothing if none of the attributes in it does. -/
theorem declared_build_of_lasts {ok : String → Bool}
    (hok : ∀ name, ok name = true → declaredPrefix? name = none) {v : Value} (hv : IsTidy v)
    (h : lasts ok v = true) (name : String) : (build name v).declared = [] := by
  induction hv generalizing name with
  | text => rw [build_atom _ rfl, Element.declared, Element.declaredAll]; rfl
  | @object l tidy solid items ih =>
    rw [lasts, fieldsLast_iff, forall_entryLasts_iff tidy] at h
    have hnone : declaredBy l.attributes = [] :=
      List.filterMap_eq_nil_iff.mpr fun a ha => by simp [hok _ (h.1 a ha)]
    rw [build, Element.declared, tidy.attributesAmong, hnone, List.nil_append]
    refine declaredAll_buildFields fun e he v hv => ?_
    rw [tidy.childrenAmong] at he
    exact ih e he v hv (h.2.1 e he v hv) e.1

/-- The fields of a root, from the attributes, the children and the text that were read. -/
theorem update_rootFields (declared : List (String × String)) (attributes : Fields String)
    {children : Fields Value} (text : String) (helement : ∀ e ∈ children, isElement e.1 = true)
    (honce : children.names.Nodup) :
    Fields.update (namespaceFields declared)
        (rootFields (assembled (asFields attributes) children text)) =
      Layout.fields ⟨(declarationsOf declared).update attributes, children, text⟩ := by
  have hroot : rootFields (assembled (asFields attributes) children text) =
      asFields attributes ++ (children ++ textFields text) := by
    rw [← List.append_assoc]
    unfold assembled
    split
    · next h =>
      rw [Bool.and_eq_true, List.isEmpty_iff, List.isEmpty_iff] at h
      rw [h.1, h.2]
      rfl
    · rfl
  have hupdate := update_asFields (declarationsOf declared) attributes
    (Layout.attributeOf?_content (l := ⟨[], children, text⟩) helement)
    (Layout.nodup_names_content helement honce)
  rw [hroot, namespaceFields_eq]
  exact hupdate.trans
    (Layout.fields_eq ⟨(declarationsOf declared).update attributes, children, text⟩).symm

theorem declared_build_layout {l : Layout} (h : l.IsTidy) (name : String)
    (hbelow : ∀ e ∈ l.children, ∀ v ∈ itemsOf e.2, (build e.1 v).declared = []) :
    (build name (.object l.fields)).declared = declaredBy l.attributes := by
  have hchildren : Element.declaredAll (buildFields l.fields) = [] := by
    refine declaredAll_buildFields ?_
    rwa [h.childrenAmong]
  rw [build, Element.declared, h.attributesAmong, hchildren, List.append_nil]

theorem declaringOf_update_ownOf {attributes : Fields String} (honce : attributes.names.Nodup) :
    (declaringOf attributes).update (ownOf attributes) =
      declaringOf attributes ++ ownOf attributes := by
  refine Fields.update_eq_append ((List.filter_sublist.map Prod.fst).nodup honce) fun a ha => ?_
  rw [Fields.get?_eq_none_iff]
  intro hmem
  obtain ⟨a', ha', heq⟩ := List.mem_map.mp hmem
  have hown := (List.mem_filter.mp ha).2
  have hdeclaring := (List.mem_filter.mp ha').2
  rw [heq] at hdeclaring
  rw [Option.isNone_iff_eq_none] at hown
  rw [hown] at hdeclaring
  cases hdeclaring

theorem declaringOf_append_ownOf_perm (attributes : Fields String) :
    (declaringOf attributes ++ ownOf attributes).Perm attributes := by
  have hown : ownOf attributes = attributes.filter fun a => !(declaredPrefix? a.1).isSome :=
    List.filter_congr fun a _ => by cases declaredPrefix? a.1 <;> rfl
  rw [hown]
  exact List.filter_append_perm _ _

/-- **A root that lasts is read as it was, but for the order of its attributes.** -/
theorem rereadRoot?_of_rootLasts (name : String) {l : Layout} (tidy : l.IsTidy)
    (items : ∀ e ∈ l.children, ∀ v ∈ itemsOf e.2, IsTidy v)
    (h : rootLasts (.object l.fields) = true) :
    ∃ l' : Layout, l'.fields.Perm l.fields ∧
      rereadRoot? name (.object l.fields) = some (listed name (.object l'.fields)) := by
  rw [rootLasts, tidy.attributesAmong, Bool.and_eq_true, List.all_eq_true, List.all_eq_true,
    forall_entryLasts_iff tidy] at h
  obtain ⟨hbind, hattributes, hchildren, htext⟩ := h
  have hqualified : ∀ a ∈ l.attributes, isQualified a.1 = true := by
    intro a ha
    have := hattributes a ha
    rw [rootAttributeLasts, Bool.and_eq_true] at this
    exact this.1
  have honce := nodup_names_declaredBy hqualified tidy.attributesOnce
  -- below the root nothing is declared, so that all names have the scope of the root
  have hbelow : ∀ name, attributeLasts (declaredBy l.attributes) name = true →
      isQualified name = true ∧ declaredPrefix? name = none ∧
        renamed? (prefixesOf (declaredBy l.attributes))
          ((declaredBy l.attributes).reverse ++ [("xml", xmlNamespace)]) name = some name := by
    intro name hname
    rw [attributeLasts, Bool.and_eq_true, Bool.and_eq_true, Option.isNone_iff_eq_none] at hname
    exact ⟨hname.1.1, hname.1.2, renamed?_of_keepsPrefix honce hbind hname.1.1 hname.2⟩
  have hdeclared : (build name (.object l.fields)).declared = declaredBy l.attributes :=
    declared_build_layout tidy name fun e he v hv =>
      declared_build_of_lasts (fun name hname => (hbelow name hname).2.1) (items e he v hv)
        (hchildren e he v hv) e.1
  have hown : ∀ a ∈ ownOf l.attributes, renamed? (prefixesOf (declaredBy l.attributes))
      ((declaredBy l.attributes).reverse ++ [("xml", xmlNamespace)]) a.1 = some a.1 := by
    intro a ha
    obtain ⟨ha, hnone⟩ := List.mem_filter.mp ha
    have hkeeps := hattributes a ha
    rw [Option.isNone_iff_eq_none] at hnone
    rw [rootAttributeLasts, hnone, Bool.and_eq_true] at hkeeps
    exact renamed?_of_keepsPrefix honce hbind hkeeps.1 (by simpa using hkeeps.2)
  obtain ⟨resolved, hread, hnamed⟩ := exists_attributesRead? hqualified tidy.attributesOnce
    (bindAll?_eq_some_iff.mpr ⟨hbind, rfl⟩) hown
  have hitems := rereadFields?_eq_self tidy.isElement tidy.shape fun e he v hv =>
    reread?_of_lasts hbelow (items e he v hv) (hchildren e he v hv)
  refine ⟨{ l with attributes := declaringOf l.attributes ++ ownOf l.attributes }, ?_, ?_⟩
  · rw [Layout.fields_eq, Layout.fields_eq]
    exact ((declaringOf_append_ownOf_perm l.attributes).map _).append_right _
  · rw [rereadRoot?, hdeclared, reread?_layout tidy, hread, Option.bind_some, hitems,
      Option.map_some, Option.map_some, hnamed, readText_eq_self tidy.trimmed htext,
      update_rootFields _ _ _ tidy.isElement tidy.childrenOnce,
      declarationsOf_declaredBy hqualified tidy.attributesOnce,
      declaringOf_update_ownOf tidy.attributesOnce]

end Tree
end Policy
end TrustFramework
