import TrustFramework.Proofs.Policy.Merging
import TrustFramework.Proofs.Sorting

/-!
# Overriding twice

An override that is applied again changes nothing more, whatever it was applied to, if its own
children can be told apart and stand in order.  The first application may decide otherwise than the
second one how children are matched: what had no keys may have some afterwards.  But every derived
child is laid then, onto the last one of its key or by itself.

## Main definitions

* `Policy.AreSettled` — children are told apart by their keys and stand in the order of their
  numbers, where all of them have some.
* `Value.settled` — all children in a tree are settled.
* `Policy.CountsOnce` — laying an element twice onto another one is the same as doing it once.

## Main results

* `Policy.mergedItems_mergedItems` — children of one name.
* `Policy.mergedField_mergedField` — a field.
* `Policy.countsOnce_of_settled` — **a settled tree counts once.**
-/

namespace TrustFramework
namespace Policy

/-- Children are told apart where all have keys, and in order where all have numbers. -/
structure AreSettled (items : List Value) : Prop where
  nodup : areKeyed items = true → (items.map referenceKey).Nodup
  ascends : AreNumbered items → items.Pairwise fun v w => orderOf v ≤ orderOf w

instance (items : List Value) : Decidable (AreSettled items) :=
  decidable_of_iff ((areKeyed items = true → (items.map referenceKey).Nodup) ∧
      (AreNumbered items → items.Pairwise fun v w => orderOf v ≤ orderOf w))
    ⟨fun h => ⟨h.1, h.2⟩, fun h => ⟨h.1, h.2⟩⟩

end Policy

open Policy

/-! ### Settled trees -/

namespace Value

mutual
/-- Whether the children of every name are settled, in a tree and in all below. -/
def settled : Value → Bool
  | list items => itemsSettled items
  | object fields => fieldsSettled fields
  | _ => true

/-- Whether all items are. -/
def itemsSettled : List Value → Bool
  | [] => true
  | v :: rest => settled v && itemsSettled rest

/-- Whether the children in all fields are. -/
def fieldsSettled : List (String × Value) → Bool
  | [] => true
  | (name, v) :: rest =>
    (!Tree.isElement name || decide (AreSettled (Node.asList v)) && settled v) &&
      fieldsSettled rest
end

theorem settled_list_iff {items : List Value} :
    (list items).settled = true ↔ ∀ v ∈ items, v.settled = true := by
  rw [settled]
  induction items with
  | nil => simp [itemsSettled]
  | cons v items ih => simp [itemsSettled, ih]

theorem settled_object_iff {fields : Fields Value} :
    (object fields).settled = true ↔ ∀ entry ∈ fields, Tree.isElement entry.1 = true →
      AreSettled (Node.asList entry.2) ∧ entry.2.settled = true := by
  rw [settled]
  induction fields with
  | nil => simp [fieldsSettled]
  | cons entry fields ih =>
    obtain ⟨name, v⟩ := entry
    cases h : Tree.isElement name <;> simp [fieldsSettled, ih, h]

end Value

namespace Policy

variable {current incoming items : List Value} {existing derived v w : Value}

/-! ### In order -/

/-- Elements with one key have one number, so that sorting leaves them as they stand. -/
theorem filter_inOrder (key : List (String × String)) (items : List Value) :
    (inOrder items).filter (fun v => referenceKey v == key) =
      items.filter fun v => referenceKey v == key := by
  by_cases h : AreNumbered items
  · rw [inOrder_of_areNumbered h]
    refine filter_mergeSort_of_level (decide_le_trans orderOf) (decide_le_total orderOf)
      (fun v w hv hw => ?_) items
    have hkey : referenceKey v = referenceKey w := by simp_all
    exact decide_eq_true (Int.le_of_eq (orderOf_eq_of_referenceKey_eq hkey))
  · rw [inOrder_of_not_areNumbered h]

theorem inOrder_of_pairwise
    (h : AreNumbered items → items.Pairwise fun v w => orderOf v ≤ orderOf w) :
    inOrder items = items := by
  by_cases hnumbered : AreNumbered items
  · rw [inOrder_of_areNumbered hnumbered, mergeSort_eq_self orderOf (h hnumbered)]
  · exact inOrder_of_not_areNumbered hnumbered

theorem inOrder_inOrder (items : List Value) : inOrder (inOrder items) = inOrder items := by
  refine inOrder_of_pairwise fun h => ?_
  have hnumbered : AreNumbered items := fun v hv => h v ((inOrder_perm items).mem_iff.mpr hv)
  rw [inOrder_of_areNumbered hnumbered]
  exact pairwise_le_mergeSort orderOf items

/-! ### Children -/

/-- Laying an element twice onto another one is the same as doing it once. -/
def CountsOnce (w : Value) : Prop :=
  ∀ v, mergeElement (mergeElement v w) w = mergeElement v w

theorem mergeElement_null (w : Value) : mergeElement .null w = w :=
  mergeElement_of_isObject_eq_false (Or.inl rfl)

theorem CountsOnce.mergeElement_self (h : CountsOnce w) : mergeElement w w = w := by
  simpa only [mergeElement_null] using h .null

theorem areKeyed_iff : areKeyed items = true ↔ [] ∉ items.map referenceKey := by
  simp [areKeyed, List.all_eq_true]

/-- Derived children that each count once, and that are told apart and in order. -/
structure AllCountOnce (incoming : List Value) : Prop where
  settled : AreSettled incoming
  namesOnce : ∀ w ∈ incoming, w.namesOnce = true
  countsOnce : ∀ w ∈ incoming, CountsOnce w

namespace AllCountOnce

variable (h : AllCountOnce incoming)

include h

/-- Once children with keys were laid onto others, they are laid. -/
theorem isLaid (hkeyed : areKeyed incoming = true) (items : List Value) : ∀ w ∈ incoming,
    IsLaid referenceKey mergeElement
      (incoming.foldl (lay (fun v => some (referenceKey v)) mergeElement) items) w :=
  isLaid_foldl_lay (h.settled.nodup hkeyed) (referenceKey_of_mem h.namesOnce)
    (fun w hw => (h.countsOnce w hw).mergeElement_self) (fun w hw => h.countsOnce w hw) items

theorem isLaid_inOrder (hkeyed : areKeyed incoming = true) (items : List Value) :
    ∀ w ∈ incoming, IsLaid referenceKey mergeElement
      (inOrder (incoming.foldl (lay (fun v => some (referenceKey v)) mergeElement) items)) w := by
  intro w hw
  unfold IsLaid
  rw [filter_inOrder]
  exact h.isLaid hkeyed items w hw

theorem isLaid_self (hkeyed : areKeyed incoming = true) :
    ∀ w ∈ incoming, IsLaid referenceKey mergeElement incoming w := by
  have hlaid := h.isLaid hkeyed []
  rwa [foldl_lay_nil (h.settled.nodup hkeyed) (referenceKey_of_mem h.namesOnce)] at hlaid

theorem areKeyed_inOrder (hkeyed : areKeyed incoming = true) (hcurrent : areKeyed current = true) :
    areKeyed (inOrder (incoming.foldl (lay (fun v => some (referenceKey v)) mergeElement)
      current)) = true := by
  rw [areKeyed_iff] at *
  rw [((inOrder_perm _).map referenceKey).mem_iff,
    map_foldl_lay _ (referenceKey_of_mem h.namesOnce), mem_addAllNew]
  exact not_or.mpr ⟨hcurrent, hkeyed⟩

/-- What had no key has that of the derived child once this was laid onto it. -/
theorem isLaid_mergeElement (hw : w ∈ incoming) (hv : referenceKey v = []) :
    IsLaid referenceKey mergeElement [mergeElement v w] w := by
  have hkey := referenceKey_mergeElement_of_eq_nil (h.namesOnce w hw) hv
  exact ⟨mergeElement v w, by simp [hkey], h.countsOnce w hw v⟩

/-- Derived children that are laid onto themselves stay as they are. -/
theorem mergedItems_self (hne : incoming ≠ []) (hmatched : areMatched incoming incoming = true) :
    mergedItems incoming incoming = incoming := by
  rcases areMatched_cases hmatched with ⟨hkeyed, -⟩ | ⟨v, w, rfl, heq, hkeyed, hv, hw⟩
  · rw [mergedItems_of_areKeyed hne hne hkeyed hkeyed, foldl_lay_eq_self (h.isLaid_self hkeyed),
      inOrder_of_pairwise h.settled.ascends]
  · obtain rfl : v = w := by simpa using heq
    rw [mergedItems_singleton hkeyed hv hv,
      (h.countsOnce v List.mem_cons_self).mergeElement_self]

/-- **Derived children that are matched with others are matched with what comes of that**, and
change nothing of it. -/
theorem mergedItems_mergedItems (hcurrent : current ≠ []) (hne : incoming ≠ [])
    (hmatched : areMatched current incoming = true) :
    areMatched (mergedItems current incoming) incoming = true ∧
      mergedItems (mergedItems current incoming) incoming = mergedItems current incoming := by
  rcases areMatched_cases hmatched with ⟨hcurrentKeyed, hkeyed⟩ | ⟨v, w, rfl, rfl, hnone, hv, hw⟩
  · have hmerged := mergedItems_of_areKeyed hcurrent hne hcurrentKeyed hkeyed
    have hmergedKeyed : areKeyed (mergedItems current incoming) = true := by
      rw [hmerged]
      exact h.areKeyed_inOrder hkeyed hcurrentKeyed
    refine ⟨areMatched_of_areKeyed hmergedKeyed hkeyed, ?_⟩
    rw [mergedItems_of_areKeyed (mergedItems_ne_nil current hne) hne hmergedKeyed hkeyed,
      hmerged, foldl_lay_eq_self (h.isLaid_inOrder hkeyed current), inOrder_inOrder]
  · have hobject := isObject_mergeElement v hw
    have hmem : w ∈ [w] := List.mem_cons_self
    rw [mergedItems_singleton hnone hv hw]
    refine ⟨areMatched_singleton hobject hw, ?_⟩
    cases hkeyed : areKeyed [mergeElement v w] && areKeyed [w] with
    | false => rw [mergedItems_singleton hkeyed hobject hw, h.countsOnce w hmem v]
    | true =>
      -- the two were not matched by keys, and now they are
      obtain ⟨hmergedKeyed, hkey⟩ := Bool.and_eq_true_iff.mp hkeyed
      rw [hkey, Bool.and_true] at hnone
      have hlaid := h.isLaid_mergeElement (v := v) hmem (by simpa [areKeyed] using hnone)
      rw [mergedItems_of_areKeyed (List.cons_ne_nil _ _) hne hmergedKeyed hkey, List.foldl_cons,
        List.foldl_nil, hlaid.lay_eq_self, inOrder_of_pairwise fun _ => List.pairwise_singleton _ _]

end AllCountOnce

/-! ### Fields -/

theorem alone_singleton (existing derived v : Value) : alone existing derived [v] =
    if existing.isList || derived.isList then .list [v] else v := rfl

/-- What stands alone or in a list keeps doing so. -/
theorem alone_alone (h : ∀ v ∈ items, v.isObject = true) :
    alone (alone existing derived items) derived items = alone existing derived items := by
  match items, h with
  | [v], h =>
    have hv := h v List.mem_cons_self
    have hv : v.isList = false := by cases v <;> simp_all [Value.isObject, Value.isList]
    rw [alone_singleton existing]
    cases hlist : existing.isList || derived.isList with
    | true => rfl
    | false =>
      have hderived := (Bool.or_eq_false_iff.mp hlist).2
      rw [if_neg Bool.false_ne_true, alone_singleton, hv, hderived]
      rfl
  | [], _ => rfl
  | _ :: _ :: _, _ => rfl

theorem alone_self (h : Node.asList derived ≠ []) :
    alone derived derived (Node.asList derived) = derived := by
  cases derived with
  | list items => match items with
    | [] => rfl
    | [v] => rfl
    | _ :: _ :: _ => rfl
  | null => exact absurd rfl h
  | text s => by_cases hs : s.isEmpty = true <;> simp_all [Node.asList, alone, Value.isList]
  | _ => rfl

/-- The children of a name laid onto themselves. -/
theorem mergeChildren_self (h : AllCountOnce (Node.asList derived)) :
    mergeChildren derived derived
      ((Node.asList derived).map fun w => (w, fun v => mergeElement v w)) = derived := by
  rw [mergeChildren_eq]
  split
  · rfl
  split
  · next hne hmatched =>
    have hne : Node.asList derived ≠ [] := by simpa using hne
    rw [h.mergedItems_self hne hmatched, alone_self hne]
  · rfl

/-- **The children of a name laid onto others twice.** -/
theorem mergeChildren_mergeChildren (h : AllCountOnce (Node.asList derived)) (existing : Value) :
    let incoming : List Incoming :=
      (Node.asList derived).map fun w => (w, fun v => mergeElement v w)
    mergeChildren (mergeChildren existing derived incoming) derived incoming =
      mergeChildren existing derived incoming := by
  intro incoming
  rw [mergeChildren_eq existing]
  split
  · next hempty => rw [mergeChildren_eq, if_pos hempty]
  split
  · exact mergeChildren_self h
  split
  · next hne hcurrent hmatched =>
    have hobjects := isObject_of_mem_mergedItems hmatched
    have hderived : Node.asList derived ≠ [] := by simpa using hne
    obtain ⟨hagain, hsame⟩ := h.mergedItems_mergedItems (by simpa using hcurrent) hderived hmatched
    have hmerged := mergedItems_ne_nil (Node.asList existing) hderived
    rw [mergeChildren_eq, asList_alone _ _ hobjects, if_neg hne, if_neg (by simpa using hmerged),
      if_pos hagain, hsame, alone_alone hobjects]
  · exact mergeChildren_self h

/-- **A field laid onto another one twice.** -/
theorem mergedField_mergedField {name : String}
    (h : Tree.isElement name = true → AllCountOnce (Node.asList v)) (existing? : Option Value) :
    mergedField name (some (mergedField name existing? v)) v = mergedField name existing? v := by
  unfold mergedField
  split
  · next hname =>
    cases existing? with
    | none => exact mergeChildren_self (h hname)
    | some existing => exact mergeChildren_mergeChildren (h hname) existing
  · rfl

theorem mergeFields_eq_self {news fields : Fields Value}
    (h : ∀ entry ∈ news, ∃ x, fields.get? entry.1 = some x ∧
      mergedField entry.1 (some x) entry.2 = x) : mergeFields news fields = fields := by
  induction news with
  | nil => rw [mergeFields]
  | cons entry news ih =>
    obtain ⟨⟨x, hget, hsame⟩, hrest⟩ := List.forall_mem_cons.mp h
    rw [mergeFields_cons, hget, hsame, Fields.set_eq_self hget, ih hrest]

/-- An object counts once if each of its fields does. -/
theorem countsOnce_object {news : Fields Value} (hnames : news.names.Nodup)
    (h : ∀ entry ∈ news, ∀ existing? : Option Value,
      mergedField entry.1 (some (mergedField entry.1 existing? entry.2)) entry.2 =
        mergedField entry.1 existing? entry.2) : CountsOnce (.object news) := by
  have hself : mergeFields news news = news := mergeFields_eq_self fun entry hentry =>
    ⟨entry.2, Fields.get?_of_mem hnames hentry, by simpa [mergedField] using h entry hentry none⟩
  intro v
  cases v with
  | object old =>
    simp only [mergeElement, mergeOnto]
    refine congrArg Value.object (mergeFields_eq_self fun entry hentry => ?_)
    refine ⟨mergedField entry.1 (Fields.get? old entry.1) entry.2, ?_, h entry hentry _⟩
    rw [get?_mergeFields hnames, Fields.get?_of_mem hnames hentry]
  | _ => simp only [mergeElement, mergeOnto, hself]

theorem countsOnce_of_isObject_eq_false (h : w.isObject = false) : CountsOnce w := fun v => by
  rw [mergeElement_of_isObject_eq_false (Or.inr h), mergeElement_of_isObject_eq_false (Or.inr h)]

/-- A settled tree counts once, and if it is a list, so does each of its items. -/
theorem countsOnce_asList_of_settled (s : Value) (honce : s.namesOnce = true)
    (hs : s.settled = true) : CountsOnce s ∧ ∀ w ∈ Node.asList s, CountsOnce w := by
  induction s using Value.induction with
  | atom s hlist hobject =>
    have hcounts : CountsOnce s := countsOnce_of_isObject_eq_false hobject
    exact ⟨hcounts, fun w hw => Node.eq_of_mem_asList hlist hw ▸ hcounts⟩
  | list items ih =>
    rw [Value.namesOnce_list_iff] at honce
    rw [Value.settled_list_iff] at hs
    exact ⟨countsOnce_of_isObject_eq_false rfl, fun w hw => (ih w hw (honce w hw) (hs w hw)).1⟩
  | object fields ih =>
    obtain ⟨hnames, hvalues⟩ := Value.namesOnce_object_iff.mp honce
    have hcounts : CountsOnce (.object fields) := by
      refine countsOnce_object hnames fun entry hentry => mergedField_mergedField fun hname => ?_
      obtain ⟨hsettled, hbelow⟩ := Value.settled_object_iff.mp hs entry hentry hname
      have hentryOnce := hvalues entry hentry
      exact ⟨hsettled, fun w hw => Node.namesOnce_of_mem_asList hentryOnce hw,
        (ih entry hentry hentryOnce hbelow).2⟩
    exact ⟨hcounts, fun w hw => Node.eq_of_mem_asList rfl hw ▸ hcounts⟩

/-- **A settled tree counts once**: applying an override twice is the same as applying it once. -/
theorem countsOnce_of_settled (s : Value) (honce : s.namesOnce = true) (hs : s.settled = true) :
    CountsOnce s := (countsOnce_asList_of_settled s honce hs).1

/-- **Applying an override twice is the same as applying it once.** -/
theorem mergeElement_mergeElement {s : Value} (honce : s.namesOnce = true)
    (hs : s.settled = true) (t : Value) :
    mergeElement (mergeElement t s) s = mergeElement t s :=
  countsOnce_of_settled s honce hs t

/-- Steps that come several times are overridden, and an entry that had no key. -/
theorem mergeElement_mergeElement_steps :
    let step (order type : String) : Value :=
      .object [("@_Order", .text order), ("@_Type", .text type)]
    let t : Value := .object
      [("OrchestrationStep", .list [step "3" "GetClaims", step "2" "GetClaims", step "3" "None"]),
        ("Metadata", .object [("Item", .object [("#text", .text "Test")])])]
    let s : Value := .object
      [("OrchestrationStep", .list [step "1" "ClaimsExchange", step "3" "SendClaims"]),
        ("Metadata", .object [("Item", .object [("@_Key", .text "Mode")])])]
    s.namesOnce = true ∧ s.settled = true ∧
      mergeElement (mergeElement t s) s = mergeElement t s := by
  intro step t s
  have honce : s.namesOnce = true := by decide
  have hs : s.settled = true := by decide
  exact ⟨honce, hs, mergeElement_mergeElement honce hs t⟩

end Policy
end TrustFramework
