import TrustFramework.Proofs.Policy.Merging
import TrustFramework.Proofs.Xml.Names
import TrustFramework.Proofs.Xml.Reading

/-!
# Trees that were written and read

A tree that is written as a document and read from it again is a tree whose attributes went
through the namespaces that the document declares: a declaration goes to the root, and a prefix
becomes the one by which its namespace was declared last.  Line ends become line feeds, texts
lose the blanks at their ends, attributes stand first and the text last, and lists are lists if
they have several items or an element that may repeat.

## Main definitions

* `itemsOf`, `childrenAmong` — the elements a field holds, and the fields that hold elements.
* `IsWritable` — the names in a tree can be read, and its texts stand in documents.
* `reread?` — a node as it is read again, `rereadRoot?` — the root of a tree as it is read again.

## Main results

* `IsWritable.build` — the element of a writable node is writable.
* `IsWritable.isReadAs` — **the element of a node is read as the node is read again.**
* `parse_serialize` — **a tree that is written is read as its root is read again.**
-/

namespace TrustFramework

open Xml

namespace Fields

variable {α : Type}

theorem set_of_get?_eq_none {fields : Fields α} {name : String} (h : fields.get? name = none)
    (v : α) : fields.set name v = fields ++ [(name, v)] := by
  induction fields with
  | nil => rfl
  | cons entry fields ih =>
    obtain ⟨n, w⟩ := entry
    by_cases hn : n = name
    · simp [get?, hn] at h
    · rw [get?, if_neg hn] at h
      rw [set, if_neg hn, ih h, List.cons_append]

theorem set_ne_nil (fields : Fields α) (name : String) (v : α) : fields.set name v ≠ [] := by
  cases fields with
  | nil => simp [set]
  | cons entry fields =>
    rw [set]
    split <;> simp

theorem get?_append_of_eq_none {fields : Fields α} {name : String} (h : fields.get? name = none)
    (more : Fields α) : Fields.get? (fields ++ more) name = more.get? name := by
  rw [get?_append, h]
  rfl

theorem get?_append_of_eq_some {fields : Fields α} {name : String} {v : α}
    (h : fields.get? name = some v) (more : Fields α) :
    Fields.get? (fields ++ more) name = some v := by
  rw [get?_append, h]
  rfl

theorem set_append_of_eq_none {fields : Fields α} {name : String} (h : fields.get? name = none)
    (more : Fields α) (v : α) :
    Fields.set (fields ++ more) name v = fields ++ more.set name v := by
  induction fields with
  | nil => rfl
  | cons entry fields ih =>
    obtain ⟨n, w⟩ := entry
    by_cases hn : n = name
    · simp [get?, hn] at h
    · rw [get?, if_neg hn] at h
      rw [List.cons_append, set, if_neg hn, ih h, List.cons_append]

end Fields

namespace Policy
namespace Tree

/-! ### Nodes and their elements -/

/-- The elements a field holds: the items of a list, else the one. -/
def itemsOf : Value → List Value
  | .list items => items
  | v => [v]

/-- The fields that hold elements. -/
def childrenAmong (fields : Fields Value) : Fields Value := fields.filter fun e => isElement e.1

theorem buildItems_eq_map (name : String) (items : List Value) :
    buildItems name items = items.map (build name) := by
  induction items with
  | nil => rw [buildItems, List.map_nil]
  | cons v items ih => rw [buildItems, ih, List.map_cons]

theorem buildFields_cons (field : String) (v : Value) (rest : Fields Value) :
    buildFields ((field, v) :: rest) =
      if isElement field then (itemsOf v).map (build field) ++ buildFields rest
      else buildFields rest := by
  have hchild : isElement field = !(isAttribute field || field = textField) := rfl
  cases hfield : (isAttribute field || field = textField) <;>
    cases v <;> simp [buildFields, itemsOf, buildItems_eq_map, hchild, hfield]

theorem buildFields_eq_flatMap (fields : Fields Value) : buildFields fields =
    (childrenAmong fields).flatMap fun e => (itemsOf e.2).map (build e.1) := by
  induction fields with
  | nil => rw [buildFields]; rfl
  | cons e fields ih =>
    obtain ⟨field, v⟩ := e
    rw [buildFields_cons, childrenAmong, ih]
    cases hchild : isElement field with
    | false => rw [List.filter_cons_of_neg (by simpa using hchild)]; rfl
    | true => rw [List.filter_cons_of_pos (by simpa using hchild), List.flatMap_cons]; rfl

theorem build_object (name : String) (fields : Fields Value) : build name (.object fields) =
    .mk name (attributesAmong fields) (textAmong fields)
      ((childrenAmong fields).flatMap fun e => (itemsOf e.2).map (build e.1)) "" := by
  rw [build, buildFields_eq_flatMap]

theorem build_atom (name : String) {v : Value} (h : v.isObject = false) :
    build name v = .mk name [] v.shownOrEmpty [] "" := by
  cases v with
  | object fields => cases h
  | _ => simp [build, Value.shownOrEmpty]

/-! ### Nodes that can be written -/

/-- A node can be written and read: the names in it can be read, and none comes twice; its texts
stand in documents. -/
inductive IsWritable : Value → Prop
  | object {fields : Fields Value}
      (attributes : ∀ a ∈ attributesAmong fields, isWord a.1.toList = true ∧ isLegible a.2 = true)
      (text : isLegible (textAmong fields) = true)
      (names : ∀ e ∈ childrenAmong fields, isName e.1.toList = true)
      (once : (Fields.names (childrenAmong fields)).Nodup)
      (children : ∀ e ∈ childrenAmong fields, ∀ v ∈ itemsOf e.2, IsWritable v) :
      IsWritable (.object fields)
  | atom {v : Value} (hv : v.isObject = false) (text : isLegible v.shownOrEmpty = true) :
      IsWritable v

theorem areWritable_of_forall {es : List Element} (h : ∀ e ∈ es, e.IsWritable) :
    Element.AreWritable es := by
  induction es with
  | nil => trivial
  | cons e es ih =>
    rw [List.forall_mem_cons] at h
    exact ⟨h.1, ih h.2⟩

/-- **The element of a writable node is writable.** -/
theorem IsWritable.build {v : Value} (h : IsWritable v) :
    ∀ {name : String}, isName name.toList = true → (build name v).IsWritable := by
  induction h with
  | @object fields attributes text names _ _ ih =>
    intro name hname
    rw [build_object, Element.IsWritable]
    refine ⟨.simple hname, attributes, text, by decide, areWritable_of_forall ?_⟩
    intro e he
    obtain ⟨entry, hentry, he⟩ := List.mem_flatMap.mp he
    obtain ⟨v, hv, rfl⟩ := List.mem_map.mp he
    exact ih entry hentry v hv (names entry hentry)
  | atom hv text =>
    intro name hname
    rw [build_atom name hv, Element.IsWritable]
    exact ⟨.simple hname, by simp, text, by decide, trivial⟩

/-! ### Texts without blanks at their ends -/

end Tree
end Policy

namespace Xml
namespace Element

mutual
/-- An element whose texts have no blanks at their ends, and with nothing behind elements. -/
def trimmed : Element → Element
  | mk tag attributes text children _ => mk tag attributes (Text.trim text) (trimmedAll children) ""

/-- Elements whose texts have no blanks at their ends. -/
def trimmedAll : List Element → List Element
  | [] => []
  | e :: es => trimmed e :: trimmedAll es
end

theorem tag_trimmed (e : Element) : e.trimmed.tag = e.tag := by
  cases e
  rw [trimmed, tag, tag]

theorem trimmed_withTail (e : Element) (tail : String) : (e.withTail tail).trimmed = e.trimmed := by
  cases e
  rw [withTail, trimmed, trimmed]

theorem settled_withTail (e : Element) (tail : String) :
    (e.withTail tail).settled = e.settled.withTail tail := by
  cases e
  rw [withTail, settled, settled, withTail]

theorem isBlankText_lineBreak (level : Nat) : Text.isBlankText (lineBreak level) = true := by
  rw [Text.isBlankText, lineBreak, String.toList_ofList, List.all_cons, List.all_replicate]
  simp [Text.isBlank]

/-- Indentation takes the place of blanks only. -/
theorem trim_fillBlank (s : String) (level : Nat) :
    Text.trim (Text.withLineFeeds (fillBlank s (lineBreak level))) =
      Text.trim (Text.withLineFeeds s) := by
  rw [fillBlank]
  split
  · next h =>
    rw [Text.trim_withLineFeeds_of_isBlankText (isBlankText_lineBreak level),
      Text.trim_withLineFeeds_of_isBlankText h]
  · rfl

mutual
/-- Indentation is lost when texts are trimmed. -/
theorem trimmed_settled_indentedAt : ∀ (e : Element) (level : Nat),
    (e.indentedAt level).settled.trimmed = e.settled.trimmed
  | mk tag attributes text [] tail, level => by rw [indentedAt]
  | mk tag attributes text (child :: rest) tail, level => by
    rw [indentedAt, settled, settled, trimmed, trimmed, trim_fillBlank,
      trimmedAll_settledAll_indentedChildren]

theorem trimmedAll_settledAll_indentedChildren : ∀ (es : List Element) (level : Nat),
    trimmedAll (settledAll (indentedChildren level es)) = trimmedAll (settledAll es)
  | [], level => by rw [indentedChildren]
  | [e], level => by
    rw [indentedChildren, settledAll, trimmedAll, settled_withTail, trimmed_withTail,
      trimmed_settled_indentedAt, settledAll, trimmedAll]
    rfl
  | e :: next :: rest, level => by
    rw [indentedChildren, settledAll, settledAll, trimmedAll, trimmedAll, settled_withTail,
      trimmed_withTail, trimmed_settled_indentedAt, trimmedAll_settledAll_indentedChildren]
    simp
end

theorem isLegible_lineBreak (level : Nat) :
    isLegible (lineBreak level) = true ∧ '\r' ∉ (lineBreak level).toList := by
  rw [isLegible, lineBreak, String.toList_ofList]
  constructor
  · rw [List.all_cons, List.all_replicate]
    simp [show isChar '\n' = true by decide, show isChar ' ' = true by decide]
  · simp [List.mem_replicate]

theorem isLegible_fillBlank {s : String} (h : isLegible s = true) (level : Nat) :
    isLegible (fillBlank s (lineBreak level)) = true := by
  rw [fillBlank]
  split
  · exact (isLegible_lineBreak level).1
  · exact h

theorem IsWritable.withTail {e : Element} (h : e.IsWritable) {tail : String}
    (htail : isLegible tail = true ∧ '\r' ∉ tail.toList) (level : Nat) :
    (e.withTail (fillBlank tail (lineBreak level))).IsWritable := by
  cases e
  rw [IsWritable] at h
  rw [Element.withTail, IsWritable]
  refine ⟨h.1, h.2.1, h.2.2.1, ⟨isLegible_fillBlank htail.1 level, ?_⟩, h.2.2.2.2⟩
  rw [fillBlank]
  split
  · exact (isLegible_lineBreak level).2
  · exact htail.2

theorem IsWritable.tail {e : Element} (h : e.IsWritable) :
    isLegible e.tail = true ∧ '\r' ∉ e.tail.toList := by
  cases e
  rw [IsWritable] at h
  exact h.2.2.2.1

mutual
/-- An element can be written with indentation too. -/
theorem IsWritable.indentedAt : ∀ {e : Element}, e.IsWritable → ∀ level : Nat,
    (e.indentedAt level).IsWritable
  | mk tag attributes text [] tail, h, level => by rwa [Element.indentedAt]
  | mk tag attributes text (child :: rest) tail, h, level => by
    rw [IsWritable] at h
    rw [Element.indentedAt, IsWritable]
    exact ⟨h.1, h.2.1, isLegible_fillBlank h.2.2.1 _, h.2.2.2.1,
      AreWritable.indentedChildren h.2.2.2.2 level⟩

theorem AreWritable.indentedChildren : ∀ {es : List Element}, AreWritable es → ∀ level : Nat,
    AreWritable (Element.indentedChildren level es)
  | [], h, level => by rwa [Element.indentedChildren]
  | [e], h, level => by
    rw [AreWritable] at h
    rw [Element.indentedChildren]
    exact ⟨(h.1.indentedAt _).withTail h.1.tail level, trivial⟩
  | e :: next :: rest, h, level => by
    rw [AreWritable] at h
    rw [Element.indentedChildren, AreWritable]
    · exact ⟨(h.1.indentedAt _).withTail h.1.tail _, AreWritable.indentedChildren h.2 level⟩
    · simp
end

mutual
theorem declared_trimmed : ∀ e : Element, e.trimmed.declared = e.declared
  | mk tag attributes text children tail => by
    rw [trimmed, declared, declared, declaredAll_trimmedAll]

theorem declaredAll_trimmedAll : ∀ es : List Element, declaredAll (trimmedAll es) = declaredAll es
  | [] => rfl
  | e :: es => by
    rw [trimmedAll, declaredAll, declaredAll, declared_trimmed, declaredAll_trimmedAll]
end

mutual
theorem declared_settled : ∀ e : Element, e.settled.declared = e.declared
  | mk tag attributes text children tail => by
    rw [settled, declared, declared, declaredAll_settledAll]

theorem declaredAll_settledAll : ∀ es : List Element, declaredAll (settledAll es) = declaredAll es
  | [] => rfl
  | e :: es => by
    rw [settledAll, declaredAll, declaredAll, declared_settled, declaredAll_settledAll]
end

theorem declared_indentedAt (e : Element) (level : Nat) :
    (e.indentedAt level).settled.declared = e.declared := by
  rw [← declared_trimmed, trimmed_settled_indentedAt, declared_trimmed, declared_settled]

mutual
/-- Texts have no part in resolving names. -/
theorem resolved?_trimmed (scope : Fields String) : ∀ e : Element,
    e.trimmed.resolved? scope = (e.resolved? scope).map trimmed
  | mk tag attributes text children tail => by
    rw [trimmed, resolved?, resolved?]
    cases attributes.all fun a => isQualified a.1 with
    | false => rfl
    | true =>
      simp only [Bool.not_true, Bool.false_eq_true, if_false, Option.bind_eq_bind]
      cases resolveTag? scope tag attributes with
      | none => rfl
      | some t =>
        rw [Option.bind_some, Option.bind_some, resolvedAll?_trimmedAll]
        cases resolvedAll? t.scope children with
        | none => rfl
        | some children' => simp [trimmed]

theorem resolvedAll?_trimmedAll (scope : Fields String) : ∀ es : List Element,
    resolvedAll? scope (trimmedAll es) = (resolvedAll? scope es).map trimmedAll
  | [] => by rw [trimmedAll, resolvedAll?, Option.map_some, trimmedAll]
  | e :: es => by
    rw [trimmedAll, resolvedAll?, resolvedAll?, resolved?_trimmed, resolvedAll?_trimmedAll]
    cases e.resolved? scope with
    | none => rfl
    | some e' =>
      cases resolvedAll? scope es with
      | none => rfl
      | some es' => simp [trimmedAll]
end

end Element
end Xml

namespace Policy
namespace Tree

mutual
/-- Blanks at the ends of texts have no part in the value of an element. -/
theorem convert_trimmed (prefixes : Prefixes) : ∀ e : Element,
    convert prefixes e.trimmed = convert prefixes e
  | .mk tag attributes text children tail => by
    have hempty : (Element.trimmedAll children).isEmpty = children.isEmpty := by
      cases children <;> rfl
    rw [Element.trimmed, convert, convert, Text.trim_trim, hempty, convertChildren_trimmedAll]

theorem convertChildren_trimmedAll (prefixes : Prefixes) : ∀ (es : List Element)
    (fields : Fields Value),
    convertChildren prefixes (Element.trimmedAll es) fields = convertChildren prefixes es fields
  | [], fields => by rw [Element.trimmedAll]
  | .mk tag attributes text children tail :: es, fields => by
    have hfirst := convert_trimmed prefixes (.mk tag attributes text children tail)
    rw [Element.trimmed] at hfirst
    rw [Element.trimmedAll, Element.trimmed, convertChildren, convertChildren, hfirst,
      convertChildren_trimmedAll]
end

/-! ### Children among fields -/

theorem convertChildren_append (prefixes : Prefixes) (es more : List Element)
    (fields : Fields Value) : convertChildren prefixes (es ++ more) fields =
      convertChildren prefixes more (convertChildren prefixes es fields) := by
  induction es generalizing fields with
  | nil => rw [List.nil_append, convertChildren]
  | cons e es ih =>
    cases e
    rw [List.cons_append, convertChildren, convertChildren, ih]

/-- Elements of a name as a field: none, the one, or a list. -/
def fieldOf (name : String) : List Value → Fields Value
  | [] => []
  | [v] => [(name, v)]
  | vs => [(name, .list vs)]

/-- Elements of a name as a field in normal form. -/
def grouped (name : String) : List Value → Fields Value
  | [] => []
  | [v] => [(name, listed name v)]
  | vs => [(name, .list vs)]

theorem normalizeFields_append (fields more : Fields Value) :
    normalizeFields (fields ++ more) = normalizeFields fields ++ normalizeFields more := by
  simp [normalizeFields_eq_map]

theorem normalizeFields_fieldOf (name : String) (vs : List Value) :
    normalizeFields (fieldOf name vs) = grouped name (vs.map normalize) := by
  match vs with
  | [] => rfl
  | [v] => simp [fieldOf, grouped, normalizeFields_eq_map]
  | v :: w :: vs =>
    simp [fieldOf, grouped, normalizeFields_eq_map, normalize, normalizeItems_eq_map, listed,
      Value.isList]

theorem isList_convert (prefixes : Prefixes) (e : Element) :
    (convert prefixes e).isList = false := by
  cases e
  rw [convert]
  split <;> rfl

/-- Children of one name become one field. -/
theorem foldl_addChild {fields : Fields Value} {name : String} (h : fields.get? name = none)
    {vs : List Value} (hvs : ∀ v ∈ vs, v.isList = false) :
    vs.foldl (fun fields v => addChild fields name v) fields = fields ++ fieldOf name vs := by
  have hget : ∀ v : Value, Fields.get? (fields ++ [(name, v)]) name = some v := by
    intro v
    rw [Fields.get?_append_of_eq_none h]
    simp [Fields.get?]
  have hset : ∀ v w : Value, Fields.set (fields ++ [(name, v)]) name w = fields ++ [(name, w)] := by
    intro v w
    rw [Fields.set_append_of_eq_none h]
    simp [Fields.set]
  have hmore : ∀ vs items : List Value,
      vs.foldl (fun fields v => addChild fields name v) (fields ++ [(name, .list items)]) =
        fields ++ [(name, .list (items ++ vs))] := by
    intro vs
    induction vs with
    | nil => simp
    | cons v vs ih =>
      intro items
      have hnext : addChild (fields ++ [(name, .list items)]) name v =
          fields ++ [(name, .list (items ++ [v]))] := by
        rw [addChild, hget]
        exact hset _ _
      rw [List.foldl_cons, hnext, ih, List.append_assoc, List.singleton_append]
  rcases vs with - | ⟨v, - | ⟨w, vs⟩⟩
  · simp [fieldOf]
  · simp [fieldOf, addChild, h, Fields.set_of_get?_eq_none h]
  · have hsecond : addChild (fields ++ [(name, v)]) name w =
        fields ++ [(name, .list [v, w])] := by
      rw [addChild, hget]
      cases v with
      | list items => exact absurd (hvs _ List.mem_cons_self) (by simp [Value.isList])
      | _ => exact hset _ _
    have hfirst : addChild fields name v = fields ++ [(name, v)] := by
      rw [addChild, h]
      exact Fields.set_of_get?_eq_none h v
    rw [List.foldl_cons, List.foldl_cons, hfirst, hsecond, hmore]
    rfl

/-- The elements of one name become one field. -/
theorem convertChildren_of_bareName {prefixes : Prefixes} {fields : Fields Value} {name : String}
    (h : fields.get? name = none) {es : List Element} (hes : ∀ e ∈ es, bareName e.tag = name) :
    convertChildren prefixes es fields = fields ++ fieldOf name (es.map (convert prefixes)) := by
  have hfold : ∀ (es : List Element) (fields : Fields Value), (∀ e ∈ es, bareName e.tag = name) →
      convertChildren prefixes es fields = (es.map (convert prefixes)).foldl
        (fun fields v => addChild fields name v) fields := by
    intro es
    induction es with
    | nil => intro fields _; rw [convertChildren]; rfl
    | cons e es ih =>
      intro fields hes
      rw [List.forall_mem_cons] at hes
      obtain ⟨tag, attributes, text, children, tail⟩ := e
      rw [convertChildren, show bareName tag = name from hes.1, ih _ hes.2]
      rfl
  rw [hfold es fields hes, foldl_addChild h]
  intro v hv
  obtain ⟨e, -, rfl⟩ := List.mem_map.mp hv
  exact isList_convert prefixes e

/-! ### Nodes read again -/

/-- The attributes of a node as they are read, if they can be: the namespaces in scope inside the
node, and the attributes that declare none, with their names resolved. -/
def attributesRead? (scope : Fields String) (attributes : Fields String) :
    Option (Fields String × Fields String) := do
  if !attributes.all fun a => isQualified a.1 then none
  if !allDistinct (attributes.map Prod.fst) then none
  let inner ← bindAll? scope attributes
  let resolved ← resolveAll? inner attributes
  if !allDistinct (resolved.map Prod.fst) then none
  pure (inner, resolved)

/-- A text as it is read again. -/
def readText (s : String) : String := Text.trim (Text.withLineFeeds s)

/-- The field of a text, if there is any text. -/
def textFields (s : String) : Fields Value :=
  if s.isEmpty then [] else [(textField, .text s)]

/-- A node of attributes, children and a text. -/
def assembled (attributes children : Fields Value) (text : String) : Value :=
  if attributes.isEmpty && children.isEmpty then .text text
  else .object (attributes ++ children ++ textFields text)

mutual
/-- A node as it is read again, if it can be. -/
def reread? (prefixes : Prefixes) (scope : Fields String) : Value → Option Value
  | .object fields =>
    (attributesRead? scope (attributesAmong fields)).bind fun (inner, attributes) =>
      (rereadFields? prefixes inner fields).map fun children =>
        assembled (attributeFields prefixes attributes) children (readText (textAmong fields))
  | v => some (.text (readText v.shownOrEmpty))

/-- The fields that hold elements as they are read again. -/
def rereadFields? (prefixes : Prefixes) (scope : Fields String) :
    List (String × Value) → Option (Fields Value)
  | [] => some []
  | (field, v) :: rest =>
    if isElement field then
      (match v with
        | .list items => rereadItems? prefixes scope items
        | v => (reread? prefixes scope v).map fun v => [v]).bind fun items =>
          (rereadFields? prefixes scope rest).map fun rest => grouped field items ++ rest
    else rereadFields? prefixes scope rest

/-- Elements as they are read again. -/
def rereadItems? (prefixes : Prefixes) (scope : Fields String) : List Value → Option (List Value)
  | [] => some []
  | v :: rest =>
    (reread? prefixes scope v).bind fun v =>
      (rereadItems? prefixes scope rest).map fun rest => v :: rest
end

section Reread

variable {prefixes : Prefixes} {scope : Fields String}

theorem reread?_atom {v : Value} (h : v.isObject = false) :
    reread? prefixes scope v = some (.text (readText v.shownOrEmpty)) := by
  cases v with
  | object fields => cases h
  | _ => rw [reread?]; simp

theorem rereadItems?_nil : rereadItems? prefixes scope [] = some [] := rfl

theorem rereadItems?_cons (v : Value) (rest : List Value) :
    rereadItems? prefixes scope (v :: rest) =
      (reread? prefixes scope v).bind fun v =>
        (rereadItems? prefixes scope rest).map fun rest => v :: rest := rfl

theorem rereadFields?_nil : rereadFields? prefixes scope [] = some [] := rfl

theorem rereadFields?_cons (field : String) (v : Value) (rest : Fields Value) :
    rereadFields? prefixes scope ((field, v) :: rest) =
      if isElement field then
        (rereadItems? prefixes scope (itemsOf v)).bind fun items =>
          (rereadFields? prefixes scope rest).map fun rest => grouped field items ++ rest
      else rereadFields? prefixes scope rest := by
  have hone : rereadItems? prefixes scope [v] = (reread? prefixes scope v).map fun v => [v] := by
    rw [rereadItems?_cons, rereadItems?_nil]
    cases reread? prefixes scope v <;> rfl
  cases v <;> simp [rereadFields?, itemsOf, hone]

end Reread

/-! ### What is read of the element of a node -/

theorem settledAll_eq_map (es : List Element) :
    Element.settledAll es = es.map Element.settled := by
  induction es with
  | nil => rw [Element.settledAll, List.map_nil]
  | cons e es ih => rw [Element.settledAll, ih, List.map_cons]

theorem resolvedAll?_append (scope : Fields String) (es more : List Element) :
    Element.resolvedAll? scope (es ++ more) =
      (Element.resolvedAll? scope es).bind fun es' =>
        (Element.resolvedAll? scope more).map fun more' => es' ++ more' := by
  induction es with
  | nil => simp [Element.resolvedAll?]
  | cons e es ih =>
    rw [List.cons_append, Element.resolvedAll?, Element.resolvedAll?, ih]
    cases e.resolved? scope with
    | none => rfl
    | some e' =>
      cases Element.resolvedAll? scope es with
      | none => rfl
      | some es' => cases Element.resolvedAll? scope more <;> rfl

/-- The tag of an element with a simple name is resolved along with its attributes. -/
theorem resolveTag?_eq (scope : Fields String) {name : String}
    (hname : isName name.toList = true) {attributes : Fields String}
    (hqualified : (attributes.all fun a => isQualified a.1) = true) :
    ∃ tag : Fields String → String, (∀ inner, IsSoundScope inner → bareName (tag inner) = name) ∧
      resolveTag? scope name attributes = (attributesRead? scope attributes).map fun read =>
        ⟨tag read.1, read.2, read.1⟩ := by
  refine ⟨fun inner => clark ((inner.get? "").getD "") name, fun inner hinner => ?_, ?_⟩
  · obtain ⟨tag, htag, hbare⟩ := bareName_resolve? hinner hname
    rw [Xml.resolve?, splitName_of_isName hname] at htag
    simp only [if_true, Option.some.injEq] at htag
    subst htag
    exact hbare
  · have htag : ∀ inner : Fields String, Xml.resolve? inner true name =
        some (clark ((inner.get? "").getD "") name) := by
      intro inner
      rw [Xml.resolve?, splitName_of_isName hname]
      simp
    unfold resolveTag? attributesRead?
    rw [hqualified]
    simp only [Bool.not_true, Bool.false_eq_true, if_false, Option.bind_eq_bind]
    cases allDistinct (attributes.map Prod.fst) with
    | false => rfl
    | true =>
      cases bindAll? scope attributes with
      | none => rfl
      | some inner =>
        cases hresolved : resolveAll? inner attributes with
        | none => simp [htag, hresolved]
        | some resolved =>
          cases hdistinct : allDistinct (resolved.map Prod.fst) <;>
            simp [htag, hresolved, hdistinct]

/-! ### Attributes as fields -/

theorem listed_of_isElement_eq_false {name : String} (h : isElement name = false) (v : Value) :
    listed name v = v := by
  have hnames : ∀ name ∈ repeatable, isElement name = true := by decide
  have hname : repeatable.contains name = false := by
    rw [List.contains_eq_mem, decide_eq_false_iff_not]
    intro hmem
    rw [hnames name hmem] at h
    cases h
  rw [listed, hname, Bool.false_and, if_neg (by simp)]

theorem of_mem_ofPairs {α : Type} {pairs : List (String × α)} {e : String × α}
    (h : e ∈ Fields.ofPairs pairs) : e ∈ pairs := by
  suffices ∀ fields : Fields α, e ∈ fields.update pairs → e ∈ fields ∨ e ∈ pairs from
    (this [] h).resolve_left List.not_mem_nil
  clear h
  unfold Fields.update
  induction pairs with
  | nil => exact fun _ h => Or.inl h
  | cons pair pairs ih =>
    intro fields h
    rcases ih _ h with h | h
    · rcases Fields.mem_set h with h | rfl
      · exact Or.inl h
      · exact Or.inr List.mem_cons_self
    · exact Or.inr (List.mem_cons_of_mem _ h)

theorem of_mem_attributeFields {prefixes : Prefixes} {attributes : Fields String}
    {e : String × Value} (h : e ∈ attributeFields prefixes attributes) :
    ∃ name s, e = (attributeField name, .text s) := by
  obtain ⟨⟨name, s⟩, -, rfl⟩ := List.mem_map.mp (of_mem_ofPairs h)
  exact ⟨_, s, rfl⟩

theorem normalizeFields_attributeFields (prefixes : Prefixes) (attributes : Fields String) :
    normalizeFields (attributeFields prefixes attributes) = attributeFields prefixes attributes := by
  rw [normalizeFields_eq_map]
  refine (List.map_congr_left fun e he => ?_).trans (List.map_id _)
  obtain ⟨name, s, rfl⟩ := of_mem_attributeFields he
  simp [normalize, listed_of_isElement_eq_false (isElement_attributeField name)]

/-! ### What is read of the element of a node -/

section Bridge

variable {prefixes : Prefixes} {scope : Fields String}

/-- What is read of the element of a node is the node read again. -/
def IsReadAs (prefixes : Prefixes) (v : Value) : Prop :=
  ∀ (scope : Fields String) (name : String), IsSoundScope scope → isName name.toList = true →
    ((build name v).settled.resolved? scope).map (fun e =>
        (bareName e.tag, normalize (convert prefixes e))) =
      (reread? prefixes scope v).map fun v => (name, v)

theorem map_resolvedAll?_build (hscope : IsSoundScope scope) {name : String}
    (hname : isName name.toList = true) {items : List Value}
    (h : ∀ v ∈ items, IsReadAs prefixes v) :
    (Element.resolvedAll? scope (Element.settledAll (items.map (build name)))).map (fun es =>
        es.map fun e => (bareName e.tag, normalize (convert prefixes e))) =
      (rereadItems? prefixes scope items).map fun vs => vs.map fun v => (name, v) := by
  induction items with
  | nil => simp [Element.settledAll, Element.resolvedAll?, rereadItems?]
  | cons v items ih =>
    rw [List.forall_mem_cons] at h
    have hfirst := h.1 scope name hscope hname
    have hrest := ih h.2
    rw [List.map_cons, Element.settledAll, Element.resolvedAll?, rereadItems?]
    cases hv : (build name v).settled.resolved? scope with
    | none =>
      rw [hv, Option.map_none, eq_comm, Option.map_eq_none_iff] at hfirst
      rw [hfirst]
      rfl
    | some e =>
      rw [hv, Option.map_some, eq_comm, Option.map_eq_some_iff] at hfirst
      obtain ⟨v', hv', hpair⟩ := hfirst
      rw [hv', Option.bind_some]
      cases hitems : Element.resolvedAll? scope (Element.settledAll (items.map (build name))) with
      | none =>
        rw [hitems, Option.map_none, eq_comm, Option.map_eq_none_iff] at hrest
        rw [hrest]
        rfl
      | some es =>
        rw [hitems, Option.map_some, eq_comm, Option.map_eq_some_iff] at hrest
        obtain ⟨vs, hvs, hpairs⟩ := hrest
        rw [hvs]
        simp [hpair, hpairs]

theorem get?_fieldOf_of_ne {name other : String} (h : other ≠ name) (vs : List Value) :
    (fieldOf name vs).get? other = none := by
  match vs with
  | [] => rfl
  | [v] => simp [fieldOf, Fields.get?, Ne.symm h]
  | v :: w :: vs => simp [fieldOf, Fields.get?, Ne.symm h]

/-- The elements among fields are read as fields. -/
theorem map_convertChildren_buildFields (hscope : IsSoundScope scope) {fields : Fields Value}
    (hnames : ∀ e ∈ childrenAmong fields, isName e.1.toList = true)
    (honce : (Fields.names (childrenAmong fields)).Nodup)
    (h : ∀ e ∈ childrenAmong fields, ∀ v ∈ itemsOf e.2, IsReadAs prefixes v)
    {before : Fields Value} (hbefore : ∀ e ∈ childrenAmong fields, before.get? e.1 = none) :
    (Element.resolvedAll? scope (Element.settledAll (buildFields fields))).map (fun es =>
        normalizeFields (convertChildren prefixes es before)) =
      (rereadFields? prefixes scope fields).map fun children =>
        normalizeFields before ++ children := by
  induction fields generalizing before with
  | nil =>
    simp [buildFields, Element.settledAll, Element.resolvedAll?, rereadFields?_nil, convertChildren]
  | cons e fields ih =>
    obtain ⟨field, v⟩ := e
    rw [buildFields_cons, rereadFields?_cons]
    cases hfield : isElement field with
    | false =>
      have hskip : childrenAmong ((field, v) :: fields) = childrenAmong fields :=
        List.filter_cons_of_neg (by simpa using hfield)
      rw [hskip] at hnames honce h hbefore
      exact ih hnames honce h hbefore
    | true =>
      have hcons : childrenAmong ((field, v) :: fields) = (field, v) :: childrenAmong fields :=
        List.filter_cons_of_pos (by simpa using hfield)
      rw [hcons, List.forall_mem_cons] at hnames h hbefore
      rw [hcons, Fields.names, List.map_cons, List.nodup_cons] at honce
      have hitems := map_resolvedAll?_build hscope hnames.1 h.1
      rw [if_pos rfl, if_pos rfl, settledAll_eq_map, List.map_append, ← settledAll_eq_map,
        ← settledAll_eq_map, resolvedAll?_append]
      cases hes : Element.resolvedAll? scope
          (Element.settledAll ((itemsOf v).map (build field))) with
      | none =>
        rw [hes, Option.map_none, eq_comm, Option.map_eq_none_iff] at hitems
        rw [hitems]
        rfl
      | some es =>
        rw [hes, Option.map_some, eq_comm, Option.map_eq_some_iff] at hitems
        obtain ⟨vs, hvs, hpairs⟩ := hitems
        have hbare : ∀ e ∈ es, bareName e.tag = field := by
          intro e he
          have hmem := List.mem_map_of_mem (f := fun e => (bareName e.tag,
            normalize (convert prefixes e))) he
          rw [← hpairs] at hmem
          obtain ⟨w, -, hw⟩ := List.mem_map.mp hmem
          exact (Prod.mk.inj hw).1.symm
        have hvalues : (es.map (convert prefixes)).map normalize = vs := by
          have := congrArg (List.map Prod.snd) hpairs
          simpa [Function.comp_def] using this.symm
        -- the field takes the place of its elements, and the rest comes behind it
        have hrest := @ih hnames.2 honce.2 h.2
          (before ++ fieldOf field (es.map (convert prefixes))) (by
            intro e he
            have hne : e.1 ≠ field := by
              intro heq
              have hmem := List.mem_map_of_mem (f := Prod.fst) he
              rw [heq] at hmem
              exact honce.1 hmem
            rw [Fields.get?_append_of_eq_none (hbefore.2 e he), get?_fieldOf_of_ne hne])
        rw [normalizeFields_append, normalizeFields_fieldOf, hvalues] at hrest
        rw [hvs, Option.bind_some, Option.bind_some]
        cases hmore : Element.resolvedAll? scope (Element.settledAll (buildFields fields)) with
        | none =>
          rw [hmore, Option.map_none, eq_comm, Option.map_eq_none_iff] at hrest
          rw [hrest]
          rfl
        | some more =>
          rw [hmore, Option.map_some] at hrest
          cases hchildren : rereadFields? prefixes scope fields with
          | none => rw [hchildren] at hrest; cases hrest
          | some children =>
            rw [hchildren, Option.map_some, Option.some.injEq] at hrest
            rw [Option.map_some, Option.map_some, Option.map_some, Option.map_some,
              convertChildren_append, convertChildren_of_bareName hbefore.1 hbare, hrest,
              List.append_assoc]

theorem eq_nil_of_convertChildren {es : List Element}
    {fields : Fields Value} (h : convertChildren prefixes es fields = []) :
    es = [] ∧ fields = [] := by
  induction es generalizing fields with
  | nil => exact ⟨rfl, by rwa [convertChildren] at h⟩
  | cons e es ih =>
    cases e
    rw [convertChildren] at h
    have hadd := (ih h).2
    unfold addChild at hadd
    split at hadd <;> exact absurd hadd (Fields.set_ne_nil _ _ _)

theorem of_mem_rereadFields? {fields children : Fields Value}
    (h : rereadFields? prefixes scope fields = some children) :
    ∀ e ∈ children, isElement e.1 = true := by
  induction fields generalizing children with
  | nil =>
    rw [rereadFields?_nil, Option.some.injEq] at h
    simp [← h]
  | cons entry fields ih =>
    obtain ⟨field, v⟩ := entry
    rw [rereadFields?_cons] at h
    split at h
    · next hfield =>
      obtain ⟨items, -, h⟩ := Option.bind_eq_some_iff.mp h
      obtain ⟨rest, hrest, rfl⟩ := Option.map_eq_some_iff.mp h
      refine List.forall_mem_append.mpr ⟨?_, ih hrest⟩
      match items with
      | [] => simp [grouped]
      | [v] => simpa [grouped] using hfield
      | v :: w :: items => simpa [grouped] using hfield
    · exact ih h

theorem get?_attributeFields {attributes : Fields String} {name : String}
    (h : isElement name = true ∨ name = textField) :
    (attributeFields prefixes attributes).get? name = none := by
  rw [Fields.get?_eq_none_iff]
  intro hmem
  obtain ⟨e, he, rfl⟩ := List.mem_map.mp hmem
  obtain ⟨n, s, rfl⟩ := of_mem_attributeFields he
  rcases h with h | h
  · rw [isElement_attributeField] at h
    cases h
  · have hlist := congrArg String.toList h
    simp [attributeField, textField] at hlist

theorem isEmpty_attributeFields (attributes : Fields String) :
    (attributeFields prefixes attributes).isEmpty = attributes.isEmpty := by
  cases attributes with
  | nil => rfl
  | cons a attributes =>
    have hmem : ∀ (pairs fields : Fields Value), fields ≠ [] → fields.update pairs ≠ [] := by
      intro pairs
      unfold Fields.update
      induction pairs with
      | nil => exact fun _ h => h
      | cons pair pairs ih => exact fun fields _ => ih _ (Fields.set_ne_nil _ _ _)
    rw [List.isEmpty_cons, List.isEmpty_eq_false_iff]
    exact hmem _ (Fields.set [] _ _) (Fields.set_ne_nil _ _ _)

/-- What the attributes, the elements and the text of an element make, in normal form. -/
theorem normalize_convert {tag text tail : String} {attributes : Fields String}
    {es : List Element} {children : Fields Value}
    (hchildren : normalizeFields (convertChildren prefixes es (attributeFields prefixes attributes)) =
      attributeFields prefixes attributes ++ children)
    (hnames : ∀ e ∈ children, isElement e.1 = true) :
    normalize (convert prefixes (.mk tag attributes text es tail)) =
      assembled (attributeFields prefixes attributes) children (Text.trim text) := by
  rw [convert, assembled, isEmpty_attributeFields]
  have hempty : (attributes.isEmpty && es.isEmpty) = (attributes.isEmpty && children.isEmpty) := by
    cases attributes with
    | cons a attributes => rfl
    | nil =>
      have hnil : attributeFields prefixes [] = [] := rfl
      rw [hnil, List.nil_append] at hchildren
      cases es with
      | nil => rw [← hchildren, convertChildren, normalizeFields]; rfl
      | cons e es =>
        cases children with
        | nil =>
          rw [normalizeFields_eq_map, List.map_eq_nil_iff] at hchildren
          exact absurd (eq_nil_of_convertChildren hchildren).1 (by simp)
        | cons c children => rfl
  have hnone : (convertChildren prefixes es (attributeFields prefixes attributes)).get? textField =
      none := by
    rw [Fields.get?_eq_none_iff, ← names_normalizeFields, hchildren, Fields.names,
      List.map_append, List.mem_append, not_or]
    constructor
    · exact Fields.get?_eq_none_iff.mp (get?_attributeFields (Or.inr rfl))
    · intro hmem
      obtain ⟨e, he, htext⟩ := List.mem_map.mp hmem
      have := hnames e he
      rw [htext] at this
      exact absurd this (by decide)
  rw [← hempty]
  split
  · rw [normalize] <;> simp
  · rw [normalize, textFields]
    split
    · rw [hchildren, List.append_nil]
    · rw [Fields.set_of_get?_eq_none hnone, normalizeFields_append, hchildren]
      rfl

theorem bindAll?_of_attributesRead? {attributes : Fields String}
    {read : Fields String × Fields String} (h : attributesRead? scope attributes = some read) :
    bindAll? scope attributes = some read.1 := by
  unfold attributesRead? at h
  simp only [Option.bind_eq_bind, Option.pure_def] at h
  split at h
  · cases h
  split at h
  · cases h
  obtain ⟨inner, hinner, h⟩ := Option.bind_eq_some_iff.mp h
  obtain ⟨resolved, -, h⟩ := Option.bind_eq_some_iff.mp h
  split at h
  · cases h
  · cases h
    exact hinner

/-- **What is read of the element of a node is the node read again.** -/
theorem IsWritable.isReadAs {v : Value} (h : IsWritable v) : IsReadAs prefixes v := by
  induction h with
  | atom hv text =>
    intro scope name hscope hname
    have hqualified : (([] : Fields String).all fun a => isQualified a.1) = true := rfl
    obtain ⟨tag, hbare, htag⟩ := resolveTag?_eq scope hname hqualified
    have hread : attributesRead? scope [] = some (scope, []) := rfl
    rw [build_atom name hv, reread?_atom hv, Element.settled, Element.resolved?, htag, hread]
    simp [Element.settledAll, Element.resolvedAll?, Element.tag, hbare scope hscope, convert,
      normalize, readText]
  | @object fields attributes text names once children ih =>
    intro scope name hscope hname
    rw [Tree.build, Element.settled, Element.resolved?, reread?]
    cases hqualified : (attributesAmong fields).all fun a => isQualified a.1 with
    | false => simp [attributesRead?, hqualified]
    | true =>
    obtain ⟨tag, hbare, htag⟩ := resolveTag?_eq scope hname hqualified
    rw [htag]
    cases hread : attributesRead? scope (attributesAmong fields) with
    | none => rfl
    | some read =>
    obtain ⟨inner, attributes'⟩ := read
    have hinner : IsSoundScope inner := hscope.bindAll? (bindAll?_of_attributesRead? hread)
    have hbefore : ∀ e ∈ childrenAmong fields,
        (attributeFields prefixes attributes').get? e.1 = none := fun e he =>
      get?_attributeFields (Or.inl (List.mem_filter.mp he).2)
    have hchildren := map_convertChildren_buildFields hinner names once ih hbefore
    rw [normalizeFields_attributeFields] at hchildren
    cases hes : Element.resolvedAll? inner (Element.settledAll (buildFields fields)) with
    | none =>
      rw [hes, Option.map_none, eq_comm, Option.map_eq_none_iff] at hchildren
      simp [hes, hchildren]
    | some es =>
      rw [hes, Option.map_some, eq_comm, Option.map_eq_some_iff] at hchildren
      obtain ⟨vs, hvs, hfields⟩ := hchildren
      have hnode : normalize (convert prefixes
          (.mk (tag inner) attributes' (Text.withLineFeeds (textAmong fields)) es "")) = _ :=
        normalize_convert hfields.symm (of_mem_rereadFields? hvs)
      simp [hes, hvs, hnode, Element.tag, hbare inner hinner, readText]

end Bridge

/-! ### Documents read again -/

theorem normalizeFields_set (fields : Fields Value) (name : String) (v : Value) :
    normalizeFields (fields.set name v) =
      Fields.set (normalizeFields fields) name (listed name (normalize v)) := by
  induction fields with
  | nil => simp [Fields.set, normalizeFields]
  | cons entry fields ih =>
    obtain ⟨n, w⟩ := entry
    by_cases hn : n = name
    · simp [Fields.set, normalizeFields, hn]
    · simp [Fields.set, normalizeFields, hn, ih]

theorem normalizeFields_update (fields news : Fields Value) :
    normalizeFields (fields.update news) =
      Fields.update (normalizeFields fields) (normalizeFields news) := by
  unfold Fields.update
  induction news generalizing fields with
  | nil => rw [normalizeFields]; rfl
  | cons entry news ih =>
    rw [List.foldl_cons, ih, normalizeFields_set, normalizeFields, List.foldl_cons]

theorem normalizeFields_namespaceFields (declared : List (String × String)) :
    normalizeFields (namespaceFields declared) = namespaceFields declared := by
  rw [normalizeFields_eq_map]
  refine (List.map_congr_left fun e he => ?_).trans (List.map_id _)
  obtain ⟨⟨pre, uri⟩, -, rfl⟩ := List.mem_map.mp (of_mem_ofPairs he)
  simp [normalize, listed_of_isElement_eq_false (isElement_attributeField _)]

theorem normalizeFields_rootFields_convert (prefixes : Prefixes) (e : Element) :
    normalizeFields (rootFields (convert prefixes e)) =
      rootFields (normalize (convert prefixes e)) := by
  cases e
  rw [convert]
  split
  · rw [rootFields, normalize, rootFields]
    · split
      · rw [normalizeFields]
      · rfl
    all_goals simp
  · rw [rootFields, normalize, rootFields]

/-- The value of the root of a document as it is read again, if it can be. -/
def rereadRoot? (name : String) (value : Value) : Option Value :=
  let declared := (build name value).declared
  (reread? (prefixesOf declared) [("xml", xmlNamespace)] value).map fun v =>
    listed name (.object ((namespaceFields declared).update (rootFields v)))

theorem ofDocument_eq {root : Element} {declared : List (String × String)} {name : String}
    {v : Value} (hname : bareName root.tag = name)
    (h : normalize (convert (prefixesOf declared) root) = v) :
    ofDocument ⟨root, declared⟩ =
      .object [(name, listed name (.object ((namespaceFields declared).update (rootFields v))))] := by
  rw [ofDocument, normalize, normalizeFields, normalizeFields, normalize, normalizeFields_update,
    normalizeFields_namespaceFields, normalizeFields_rootFields_convert, h, hname]

theorem isBlankText_declaration (s : String) :
    Text.isBlankText (declaration ++ s) = false := by
  have hopen : '<' ∈ (declaration ++ s).toList := by
    rw [String.toList_append]
    exact List.mem_append_left _ (by decide)
  rw [Text.isBlankText, List.all_eq_false]
  exact ⟨'<', hopen, by decide⟩

theorem tail_indentedAt_build (name : String) (v : Value) (level : Nat) :
    ((build name v).indentedAt level).tail = "" := by
  have htail : ∀ e : Element, (e.indentedAt level).tail = e.tail
    | .mk _ _ _ [] _ => by rw [Element.indentedAt]
    | .mk _ _ _ (_ :: _) _ => by rw [Element.indentedAt]; rfl
  rw [htail]
  cases v <;> simp [build, Element.tail]

/-- **A tree that is written is read as its root is read again.** -/
theorem parse_serialize {name : String} {value : Value} (hname : isName name.toList = true)
    (h : IsWritable value) : serialize (.object [(name, value)]) >>= parse =
      match rereadRoot? name value with
      | none => .error .malformed
      | some v => .ok (.object [(name, v)]) := by
  have hread := Document.read_written ((h.build hname).indentedAt 0)
    (tail_indentedAt_build name value 0)
  rw [Element.declared_indentedAt] at hread
  have hparse : serialize (.object [(name, value)]) >>= parse =
      parse (declaration ++ "\n" ++ ((build name value).indentedAt 0).written ++ "\n") := rfl
  rw [hparse, parse, String.append_assoc, String.append_assoc, isBlankText_declaration,
    ← String.append_assoc, ← String.append_assoc, hread]
  simp only [Bool.false_eq_true, if_false]
  -- indentation has no part in the names, nor in the values
  have htrimmed : (((build name value).indentedAt 0).settled.resolved?
      [("xml", xmlNamespace)]).map Element.trimmed =
        ((build name value).settled.resolved? [("xml", xmlNamespace)]).map Element.trimmed := by
    rw [← Element.resolved?_trimmed, Element.trimmed_settled_indentedAt, Element.resolved?_trimmed]
  have hreadAs : IsReadAs (prefixesOf (build name value).declared) value := h.isReadAs
  specialize hreadAs [("xml", xmlNamespace)] name isSoundScope_xml hname
  rw [rereadRoot?]
  cases hplain : (build name value).settled.resolved? [("xml", xmlNamespace)] with
  | none =>
    rw [hplain, Option.map_none, Option.map_eq_none_iff] at htrimmed
    rw [hplain, Option.map_none, eq_comm, Option.map_eq_none_iff] at hreadAs
    simp [htrimmed, hreadAs]
  | some plain =>
    rw [hplain, Option.map_some, Option.map_eq_some_iff] at htrimmed
    obtain ⟨root, hroot, hsame⟩ := htrimmed
    rw [hplain, Option.map_some, eq_comm, Option.map_eq_some_iff] at hreadAs
    obtain ⟨v, hv, hpair⟩ := hreadAs
    obtain ⟨htag, hvalue⟩ := Prod.mk.inj hpair
    have hrootTag : bareName root.tag = name := by
      rw [htag, ← Element.tag_trimmed plain, ← hsame, Element.tag_trimmed]
    have hrootValue : normalize (convert (prefixesOf (build name value).declared) root) = v := by
      rw [hvalue, ← convert_trimmed _ plain, ← hsame, convert_trimmed]
    simp [hroot, hv, ofDocument_eq hrootTag hrootValue]

end Tree
end Policy
end TrustFramework
