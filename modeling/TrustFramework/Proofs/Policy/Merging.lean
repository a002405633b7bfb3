import TrustFramework.Proofs.Policy.Layering
import TrustFramework.Proofs.Policy.Tree

/-!
# One element laid onto another

What stands in a field after merging is a matter of this field on both sides alone.  Attributes
are those of the derived element, and those of the other where the derived element has none;
so an element keeps what it is told apart by.  Children of one name are merged as lists, by
their reference attributes where all of them have some.

## Main definitions

* `Policy.Tree.isElement` — a field holds children, not an attribute or a text.
* `Policy.mergedField` — what stands in a field of a merged element.
* `Policy.mergedItems` — the children of one name of a merged element.
* `Policy.AreNumbered` — every element has an order, so that sorting them counts.
* `Policy.areMatched` — whether derived children are laid onto others, or stand in for them.

## Main results

* `Policy.get?_mergeElement` — the fields of a merged element.
* `Policy.solidAttribute?_mergeElement`, `Policy.referenceKey_mergeElement` — **an element laid
  onto another keeps its attributes, and with them its key.**
* `Policy.mergeChildren_eq`, `Policy.named_mergeElement` — **the children of one name after
  merging.**
* `Policy.mergeItems_eq_foldl` — items are merged by laying one after the other.
-/

namespace TrustFramework
namespace Policy

/-! ### Fields -/

/-- Whether a field of a node holds children. -/
def Tree.isElement (field : String) : Bool :=
  !(Tree.isAttribute field || field = Tree.textField)

theorem Tree.isElement_attributeField (name : String) :
    Tree.isElement (Tree.attributeField name) = false := by
  simp [isElement, isAttribute, attributeOf?, attributeField]

theorem mergers_eq (items : List Value) :
    mergers items = items.map fun v => (v, fun w => mergeElement w v) := by
  induction items with
  | nil => rw [mergers, List.map_nil]
  | cons v items ih =>
    rw [mergers, ih]
    rfl

/-- What stands in a field of a merged element, if the derived element has the field. -/
def mergedField (name : String) (existing? : Option Value) (v : Value) : Value :=
  if Tree.isElement name then
    match existing? with
    | none => v
    | some existing =>
      mergeChildren existing v ((Node.asList v).map fun w => (w, fun u => mergeElement u w))
  else v

theorem mergeFields_cons (name : String) (v : Value) (rest old : Fields Value) :
    mergeFields ((name, v) :: rest) old =
      mergeFields rest (old.set name (mergedField name (old.get? name) v)) := by
  have hif : ∀ {α : Type} (x y : α), (if Tree.isElement name then x else y) =
      if Tree.isAttribute name || name = Tree.textField then y else x := by
    intro α x y
    cases h : Tree.isAttribute name || name = Tree.textField <;> simp [Tree.isElement, h]
  unfold mergedField
  rw [hif]
  cases v with
  | text s =>
    have hincoming : ((Node.asList (.text s)).map fun w => (w, fun u => mergeElement u w)) =
        if (Node.asList (.text s)).isEmpty then [] else [(.text s, mergeOnto (.text s))] := by
      by_cases hs : s.isEmpty = true <;> simp [Node.asList, mergeElement, hs]
    rw [hincoming]
    rfl
  | list items =>
    rw [Node.asList, ← mergers_eq]
    rfl
  | _ => rfl

theorem get?_mergeFields {fields : Fields Value} (h : fields.names.Nodup) (old : Fields Value)
    (name : String) :
    Fields.get? (mergeFields fields old) name = match fields.get? name with
      | none => old.get? name
      | some v => some (mergedField name (old.get? name) v) := by
  induction fields generalizing old with
  | nil => rw [mergeFields, Fields.get?_nil]
  | cons entry fields ih =>
    obtain ⟨n, v⟩ := entry
    obtain ⟨hn, hrest⟩ := List.nodup_cons.mp h
    rw [mergeFields_cons, ih hrest]
    by_cases hname : n = name
    · -- the name does not come again, so that what was set stays
      subst hname
      have : Fields.get? fields n = none := Fields.get?_eq_none_iff.mpr hn
      simp [this, Fields.get?]
    · simp [Fields.get?, hname, Fields.get?_set_of_ne _ _ (Ne.symm hname)]

variable {target source : Value}

theorem mergeElement_of_isObject_eq_false
    (h : target.isObject = false ∨ source.isObject = false) :
    mergeElement target source = source := by
  cases source <;> cases target <;> simp_all [mergeElement, mergeOnto, Value.isObject]

theorem isObject_mergeElement (target : Value) (h : source.isObject = true) :
    (mergeElement target source).isObject = true := by
  cases source <;> cases target <;> simp_all [mergeElement, mergeOnto, Value.isObject]

/-- The fields of a merged element. -/
theorem get?_mergeElement (hsource : source.namesOnce = true) (ht : target.isObject = true)
    (hs : source.isObject = true) (name : String) :
    (mergeElement target source).get? name = match source.get? name with
      | none => target.get? name
      | some v => some (mergedField name (target.get? name) v) := by
  cases target with
  | object old =>
    cases source with
    | object fields =>
      rw [mergeElement, mergeOnto]
      exact get?_mergeFields (Value.namesOnce_object_iff.mp hsource).1 old name
    | _ => cases hs
  | _ => cases ht

/-! ### Attributes -/

/-- An attribute of a merged element is that of the derived one, if that has it. -/
theorem get?_mergeElement_attribute (hsource : source.namesOnce = true) {name : String}
    {v : Value} (h : source.get? (Tree.attributeField name) = some v) :
    (mergeElement target source).get? (Tree.attributeField name) = some v := by
  cases ht : target.isObject with
  | false => rwa [mergeElement_of_isObject_eq_false (Or.inl ht)]
  | true =>
    have hs : source.isObject = true := by cases source <;> simp_all [Value.get?, Value.isObject]
    rw [get?_mergeElement hsource ht hs, h]
    simp [mergedField, Tree.isElement_attributeField]

/-- **An element laid onto another keeps its attributes.** -/
theorem solidAttribute?_mergeElement (hsource : source.namesOnce = true) {name s : String}
    (h : Node.solidAttribute? source name = some s) :
    Node.solidAttribute? (mergeElement target source) name = some s := by
  cases hget : source.get? (Tree.attributeField name) with
  | none => simp [Node.solidAttribute?, Node.attribute?, hget] at h
  | some v =>
    rw [← h]
    simp only [Node.solidAttribute?, Node.attribute?, hget,
      get?_mergeElement_attribute hsource hget]

/-- What is paired with a name that comes once. -/
theorem get?_filterMap_pair {names : List String} (hnames : names.Nodup)
    (f : String → Option String) {name : String} (hname : name ∈ names) :
    Fields.get? (names.filterMap fun n => (f n).map fun v => (n, v)) name = f name := by
  induction names with
  | nil => cases hname
  | cons n names ih =>
    obtain ⟨hn, hrest⟩ := List.nodup_cons.mp hnames
    by_cases h : n = name
    · subst h
      cases hf : f n with
      | some v => simp [hf, Fields.get?]
      | none =>
        rw [List.filterMap_cons, hf, Option.map_none]
        refine Fields.get?_eq_none_iff.mpr fun hmem => hn ?_
        obtain ⟨entry, hentry, rfl⟩ := List.mem_map.mp hmem
        obtain ⟨m, hm, hpair⟩ := List.mem_filterMap.mp hentry
        obtain ⟨v, -, rfl⟩ := Option.map_eq_some_iff.mp hpair
        exact hm
    · have hmem : name ∈ names := (List.mem_cons.mp hname).resolve_left (Ne.symm h)
      cases hf : f n with
      | some v => simpa [hf, Fields.get?, h] using ih hrest hmem
      | none => simpa [hf] using ih hrest hmem

/-- The key of an element tells each of its reference attributes. -/
theorem get?_referenceKey (node : Value) {name : String} (hname : name ∈ referenceAttributes) :
    Fields.get? (referenceKey node) name = referenceAttribute? node name :=
  get?_filterMap_pair (by decide) _ hname

/-- An element keeps its key if the other one has no reference attribute that it lacks. -/
theorem referenceKey_mergeElement_of_forall (hsource : source.namesOnce = true)
    (h : ∀ name ∈ referenceAttributes, source.get? (Tree.attributeField name) = none →
      referenceAttribute? target name = none) :
    referenceKey (mergeElement target source) = referenceKey source := by
  cases hs : source.isObject with
  | false => rw [mergeElement_of_isObject_eq_false (Or.inr hs)]
  | true =>
  cases ht : target.isObject with
  | false => rw [mergeElement_of_isObject_eq_false (Or.inl ht)]
  | true =>
    refine List.filterMap_congr fun name hname => congrArg (Option.map _) ?_
    cases hget : source.get? (Tree.attributeField name) with
    | some v =>
      simp only [referenceAttribute?, hget, get?_mergeElement_attribute hsource hget]
    | none =>
      have hnone : referenceAttribute? source name = none := by
        simp only [referenceAttribute?, hget]
      rw [hnone, ← h name hname hget]
      simp only [referenceAttribute?, get?_mergeElement hsource ht hs, hget]

/-- **An element laid onto one of its key keeps the key.** -/
theorem referenceKey_mergeElement (hsource : source.namesOnce = true)
    (h : referenceKey target = referenceKey source) :
    referenceKey (mergeElement target source) = referenceKey source := by
  refine referenceKey_mergeElement_of_forall hsource fun name hname hget => ?_
  -- both say the same of the attribute, for the keys are the same
  rw [← get?_referenceKey target hname, h, get?_referenceKey source hname]
  simp only [referenceAttribute?, hget]

theorem referenceKey_of_mem {incoming : List Value} (honce : ∀ v ∈ incoming, v.namesOnce = true) :
    ∀ v ∈ incoming, ∀ w, referenceKey w = referenceKey v →
      referenceKey (mergeElement w v) = referenceKey v :=
  fun v hv _ hkey => referenceKey_mergeElement (honce v hv) hkey

/-- An element laid onto one without a key keeps its own. -/
theorem referenceKey_mergeElement_of_eq_nil (hsource : source.namesOnce = true)
    (h : referenceKey target = []) :
    referenceKey (mergeElement target source) = referenceKey source := by
  refine referenceKey_mergeElement_of_forall hsource fun name hname _ => ?_
  rw [← get?_referenceKey target hname, h, Fields.get?_nil]

/-- The number of an element is in its key. -/
theorem orderOf_eq_referenceAttribute (node : Value) :
    orderOf node = ((referenceAttribute? node "Order").bind Text.readInt?).getD 0 := by
  unfold orderOf Node.attribute? referenceAttribute?
  cases node.get? (Tree.attributeField "Order") with
  | none => rfl
  | some v =>
    cases v with
    | text s =>
      by_cases hs : s.isEmpty = true
      · have hzero : (Text.readInt? "").getD 0 = 0 := by decide
        obtain rfl := String.isEmpty_iff.mp hs
        exact hzero
      · simp [hs]
    | _ => rfl

theorem orderOf_eq_of_referenceKey_eq (h : referenceKey target = referenceKey source) :
    orderOf target = orderOf source := by
  rw [orderOf_eq_referenceAttribute, orderOf_eq_referenceAttribute,
    ← get?_referenceKey target (by decide), h, get?_referenceKey source (by decide)]

theorem isObject_of_referenceKey_ne_nil {node : Value} (h : referenceKey node ≠ []) :
    node.isObject = true := by
  cases hnode : node.isObject with
  | true => rfl
  | false =>
    refine absurd (List.filterMap_eq_nil_iff.mpr fun name _ => ?_) h
    cases node <;> simp_all [referenceAttribute?, Value.get?, Value.isObject]

/-! ### Children -/

/-- Elements with keys of their own, laid onto others of that kind. -/
theorem mergeKeyed_eq_foldl (items incoming : List Value) :
    mergeKeyed items (incoming.map fun v => (v, fun w => mergeElement w v)) =
      incoming.foldl (lay (fun v => some (referenceKey v)) mergeElement) items := by
  rw [mergeKeyed, List.foldl_map]
  rfl

/-- **Items are merged by laying one after the other.** -/
theorem mergeItems_eq_foldl (key : Value → Option String) (items incoming : List Value) :
    mergeItems key items incoming = incoming.foldl (lay key mergeElement) items := by
  unfold mergeItems
  congr 1
  funext items v
  unfold lay
  cases key v <;> rfl

/-- Whether every element has a key. -/
def areKeyed (items : List Value) : Bool := items.all fun v => !(referenceKey v).isEmpty

/-- The children of one name of a merged element. -/
def mergedItems (current incoming : List Value) : List Value :=
  if incoming.isEmpty then current
  else if current.isEmpty then incoming
  else if areKeyed current && areKeyed incoming then
    inOrder (incoming.foldl (lay (fun v => some (referenceKey v)) mergeElement) current)
  else match current, incoming with
    | [v], [w] => if v.isObject && w.isObject then [mergeElement v w] else incoming
    | _, _ => incoming

theorem mergedItems_of_areKeyed {current incoming : List Value} (hcurrent : current ≠ [])
    (hincoming : incoming ≠ []) (hcurrentKeyed : areKeyed current = true)
    (hincomingKeyed : areKeyed incoming = true) :
    mergedItems current incoming =
      inOrder (incoming.foldl (lay (fun v => some (referenceKey v)) mergeElement) current) := by
  unfold mergedItems
  rw [if_neg (by simpa using hincoming), if_neg (by simpa using hcurrent), hcurrentKeyed,
    hincomingKeyed, Bool.and_self, if_pos rfl]

theorem mergedItems_singleton {v w : Value} (h : (areKeyed [v] && areKeyed [w]) = false)
    (hv : v.isObject = true) (hw : w.isObject = true) :
    mergedItems [v] [w] = [mergeElement v w] := by
  simp [mergedItems, h, hv, hw]

/-- Every element has a number, or something else where the number stands. -/
def AreNumbered (items : List Value) : Prop :=
  ∀ v ∈ items, (Node.solidAttribute? v "Order").isSome = true

instance (items : List Value) : Decidable (AreNumbered items) :=
  inferInstanceAs (Decidable (∀ v ∈ items, _))

theorem inOrder_of_areNumbered {items : List Value} (h : AreNumbered items) :
    inOrder items = items.mergeSort fun v w => orderOf v ≤ orderOf w :=
  if_pos (List.all_eq_true.mpr h)

theorem inOrder_of_not_areNumbered {items : List Value} (h : ¬ AreNumbered items) :
    inOrder items = items :=
  if_neg fun hall => h (List.all_eq_true.mp hall)

theorem inOrder_perm (items : List Value) : (inOrder items).Perm items := by
  unfold inOrder
  split
  · exact List.mergeSort_perm _ _
  · exact List.Perm.refl _

/-- What holds of the children on both sides, and is kept by merging, holds of all children. -/
theorem forall_mem_mergedItems {P : Value → Prop} {current incoming : List Value}
    (hcurrent : ∀ v ∈ current, P v) (hincoming : ∀ w ∈ incoming, P w)
    (hmerge : ∀ w ∈ incoming, ∀ v, P v → P (mergeElement v w)) :
    ∀ v ∈ mergedItems current incoming, P v := by
  unfold mergedItems
  split
  · exact hcurrent
  split
  · exact hincoming
  split
  · exact fun v hv => forall_mem_foldl_lay hcurrent hincoming
      (fun w hw _ _ u hu _ => hmerge w hw u hu) v ((inOrder_perm _).mem_iff.mp hv)
  split
  · split
    · simpa using hmerge _ List.mem_cons_self _ (hcurrent _ List.mem_cons_self)
    · exact hincoming
  · exact hincoming

theorem mergedItems_ne_nil (current : List Value) {incoming : List Value} (h : incoming ≠ []) :
    mergedItems current incoming ≠ [] := by
  unfold mergedItems
  split
  · next hempty => exact absurd (List.isEmpty_iff.mp hempty) h
  split
  · exact h
  split
  · next hcurrent _ =>
    rw [List.isEmpty_iff] at hcurrent
    exact fun hnil => foldl_lay_ne_nil hcurrent incoming
      (List.Perm.eq_nil (hnil ▸ (inOrder_perm _).symm))
  split
  · split <;> simp
  · exact h

theorem asList_alone (existing derived : Value) {items : List Value}
    (h : ∀ v ∈ items, v.isObject = true) : Node.asList (alone existing derived items) = items := by
  unfold alone
  split
  · next v =>
    split
    · rfl
    · have hv := h v List.mem_cons_self
      cases v <;> simp_all [Node.asList, Value.isObject]
  · rfl

theorem isObject_of_areKeyed {items : List Value} (h : areKeyed items = true) :
    ∀ v ∈ items, v.isObject = true := fun v hv =>
  isObject_of_referenceKey_ne_nil (by simpa using List.all_eq_true.mp h v hv)

/-- Whether derived elements are matched with others: all have keys, or there is one of each. -/
def areMatched (current incoming : List Value) : Bool :=
  areKeyed current && areKeyed incoming ||
    match current, incoming with
    | [v], [w] => v.isObject && w.isObject
    | _, _ => false

/-- Derived children that are not matched stand in for the others. -/
theorem mergeChildren_eq (existing derived : Value) :
    mergeChildren existing derived
      ((Node.asList derived).map fun w => (w, fun v => mergeElement v w)) =
        if (Node.asList derived).isEmpty then existing
        else if (Node.asList existing).isEmpty then derived
        else if areMatched (Node.asList existing) (Node.asList derived) then
          alone existing derived (mergedItems (Node.asList existing) (Node.asList derived))
        else derived := by
  unfold mergeChildren mergedItems
  simp only [List.isEmpty_map]
  split
  · rfl
  split
  · rfl
  rw [mergeKeyed_eq_foldl]
  have hall : ((Node.asList derived).map fun v => ((v, fun w => mergeElement w v) : Incoming)).all
      (fun next => !(referenceKey next.1).isEmpty) = areKeyed (Node.asList derived) := by
    simp [areKeyed, List.all_map, Function.comp_def]
  rw [hall]
  change (if areKeyed (Node.asList existing) && areKeyed (Node.asList derived) then _ else _) = _
  unfold areMatched
  cases areKeyed (Node.asList existing) && areKeyed (Node.asList derived) with
  | true => rfl
  | false =>
    -- without keys there has to be one element on either side
    generalize Node.asList existing = current
    generalize Node.asList derived = incoming
    match current, incoming with
    | [v], [w] =>
      simp only [List.map_cons, List.map_nil, Bool.false_or, Bool.false_eq_true, if_false]
      split <;> rfl
    | [], _ => simp
    | _ :: _ :: _, _ => simp
    | [_], [] => simp
    | [_], _ :: _ :: _ => simp

theorem areMatched_of_areKeyed {current incoming : List Value} (hcurrent : areKeyed current = true)
    (hincoming : areKeyed incoming = true) : areMatched current incoming = true := by
  simp [areMatched, hcurrent, hincoming]

theorem areMatched_singleton {v w : Value} (hv : v.isObject = true) (hw : w.isObject = true) :
    areMatched [v] [w] = true := by
  simp [areMatched, hv, hw]

/-- Elements that are matched have keys, or there is one of each. -/
theorem areMatched_cases {current incoming : List Value}
    (h : areMatched current incoming = true) :
    areKeyed current = true ∧ areKeyed incoming = true ∨
      ∃ v w, current = [v] ∧ incoming = [w] ∧ (areKeyed [v] && areKeyed [w]) = false ∧
        v.isObject = true ∧ w.isObject = true := by
  unfold areMatched at h
  cases hkeyed : areKeyed current && areKeyed incoming with
  | true => exact Or.inl (Bool.and_eq_true_iff.mp hkeyed)
  | false =>
    rw [hkeyed, Bool.false_or] at h
    split at h
    · exact Or.inr ⟨_, _, rfl, rfl, hkeyed, Bool.and_eq_true_iff.mp h⟩
    · cases h

theorem isObject_of_areMatched {current incoming : List Value}
    (h : areMatched current incoming = true) :
    (∀ v ∈ current, v.isObject = true) ∧ ∀ w ∈ incoming, w.isObject = true := by
  rcases areMatched_cases h with ⟨hcurrent, hincoming⟩ | ⟨v, w, rfl, rfl, -, hv, hw⟩
  · exact ⟨isObject_of_areKeyed hcurrent, isObject_of_areKeyed hincoming⟩
  · exact ⟨by simpa using hv, by simpa using hw⟩

theorem isObject_of_mem_mergedItems {current incoming : List Value}
    (h : areMatched current incoming = true) :
    ∀ v ∈ mergedItems current incoming, v.isObject = true := by
  obtain ⟨hcurrent, hincoming⟩ := isObject_of_areMatched h
  exact forall_mem_mergedItems hcurrent hincoming
    fun w hw v _ => isObject_mergeElement v (hincoming w hw)

theorem mergedItems_of_areMatched_eq_false {current incoming : List Value} (hcurrent : current ≠ [])
    (hincoming : incoming ≠ []) (h : areMatched current incoming = false) :
    mergedItems current incoming = incoming := by
  unfold areMatched at h
  rw [Bool.or_eq_false_iff] at h
  unfold mergedItems
  rw [if_neg (by simpa using hincoming), if_neg (by simpa using hcurrent), h.1, if_neg (by simp)]
  split
  · exact if_neg (by simpa using h.2)
  · rfl

theorem asList_mergeChildren (existing derived : Value) :
    Node.asList (mergeChildren existing derived
      ((Node.asList derived).map fun v => (v, fun w => mergeElement w v))) =
        mergedItems (Node.asList existing) (Node.asList derived) := by
  rw [mergeChildren_eq]
  split
  · next hderived => exact (if_pos hderived).symm
  split
  · next hderived hexisting => exact ((if_neg hderived).trans (if_pos hexisting)).symm
  split
  · next h => exact asList_alone _ _ (isObject_of_mem_mergedItems h)
  · next hderived hexisting h =>
    rw [mergedItems_of_areMatched_eq_false (by simpa using hexisting) (by simpa using hderived)
      (by simpa using h)]

theorem named_eq_asList {node : Value} (name : String) :
    Node.named name node = Node.asList ((node.get? name).getD .null) := by
  cases node <;> rfl

/-- **The children of one name after merging.** -/
theorem named_mergeElement (hsource : source.namesOnce = true) (ht : target.isObject = true)
    (hs : source.isObject = true) {name : String} (hname : Tree.isElement name = true) :
    Node.named name (mergeElement target source) =
      mergedItems (Node.named name target) (Node.named name source) := by
  rw [named_eq_asList, named_eq_asList, named_eq_asList, get?_mergeElement hsource ht hs]
  cases source.get? name with
  | none => simp [mergedItems, Node.asList]
  | some v =>
    cases target.get? name with
    | none => simp +contextual [mergedField, hname, mergedItems, Node.asList]
    | some w => simp [mergedField, hname, asList_mergeChildren]

end Policy
end TrustFramework
