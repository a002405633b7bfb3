import Mathlib.Tactic.MkIffOfInductiveProp
import TrustFramework.Proofs.Policy.Merging

/-!
# Lists of a definition

A definition keeps its lists in containers: steps, claims and metadata are each the children of
one element of it.  Where the items of a list are told apart by an attribute of their own, and
by nothing else, the lists of several definitions merge into one that has an item for each key:
all items of the key, laid onto each other.  The items stay in the order in which their keys
came, but for those that are numbered, which are put in order.

## Main definitions

* `Policy.Listing` — where definitions keep a list, and what tells its items apart.
* `Policy.Listing.IsOrderly` — the items of a definition are told apart.

## Main results

* `Policy.Listing.items_mergeElement`, `Policy.Listing.IsOrderly.mergeElement` — the list of a
  definition laid onto another, which is orderly again.
* `Policy.Listing.layers_items` — **the list of definitions laid onto each other.**
-/

namespace TrustFramework
namespace Policy

open Policy.Node

/-- Where definitions keep a list, and the attribute that tells its items apart. -/
structure Listing where
  container : String
  element : String
  identifier : String
  isElement_container : Tree.isElement container = true
  isElement_element : Tree.isElement element = true

namespace Listing

variable {l : Listing} {target source : Value}

/-- The items of a definition's list. -/
def items (l : Listing) (node : Value) : List Value := children node [l.container, l.element]

theorem items_eq (l : Listing) (node : Value) :
    l.items node = (named l.container node).flatMap (named l.element) := by
  simp [items, children]

/-- An item is identified by its own attribute, and by no other. -/
def Identifies (l : Listing) (item : Value) : Prop :=
  ∃ s, solidAttribute? item l.identifier = some s ∧ referenceKey item = [(l.identifier, s)]

instance (item : Value) : Decidable (l.Identifies item) :=
  inferInstanceAs (Decidable
    (∃ s ∈ solidAttribute? item l.identifier, referenceKey item = [(l.identifier, s)]))

/-- The items of a definition's list are told apart: each has the identifying attribute, no two
the same. There is one container at most, and nothing identifies it. -/
@[mk_iff]
structure IsOrderly (l : Listing) (node : Value) : Prop where
  isObject : node.isObject = true
  container_single : (named l.container node).length ≤ 1
  container : ∀ v ∈ named l.container node, v.isObject = true ∧ referenceKey v = []
  identifies : ∀ item ∈ l.items node, l.Identifies item
  nodup : ((l.items node).map referenceKey).Nodup

instance (node : Value) : Decidable (l.IsOrderly node) :=
  decidable_of_iff _ (isOrderly_iff l node).symm

/-- A definition has no container or one. -/
theorem IsOrderly.container_eq {node : Value} (h : l.IsOrderly node) :
    named l.container node = [] ∨
      ∃ v, named l.container node = [v] ∧ v.isObject = true ∧ referenceKey v = [] := by
  have hsingle := h.container_single
  have hcontainer := h.container
  match hnamed : named l.container node with
  | [] => exact Or.inl rfl
  | [v] => exact Or.inr ⟨v, rfl, hcontainer v (by simp [hnamed])⟩
  | _ :: _ :: _ => simp [hnamed] at hsingle

/-! ### Items -/

theorem areKeyed_of_identifies {items : List Value} (h : ∀ item ∈ items, l.Identifies item) :
    areKeyed items = true := by
  refine List.all_eq_true.mpr fun item hitem => ?_
  obtain ⟨s, -, hkey⟩ := h item hitem
  simp [hkey]

/-- Items that are not numbered stay as they are. -/
theorem inOrder_eq_self {items : List Value} (h : l.identifier ≠ "Order")
    (hitems : ∀ item ∈ items, l.Identifies item) : inOrder items = items := by
  cases items with
  | nil => simp [inOrder]
  | cons item items =>
    obtain ⟨s, -, hkey⟩ := hitems item List.mem_cons_self
    have horder : referenceAttribute? item "Order" = none := by
      rw [← get?_referenceKey item (by decide), hkey]
      simp [Fields.get?, h]
    have hsolid : solidAttribute? item "Order" = none := by
      unfold referenceAttribute? at horder
      unfold solidAttribute? attribute?
      split at horder <;> simp_all
    simp [inOrder, hsolid]

/-- Items laid onto others by what identifies them. -/
def layItems (items incoming : List Value) : List Value :=
  incoming.foldl (lay (fun v => some (referenceKey v)) Policy.mergeElement) items

section Lists

variable {current incoming : List Value}

theorem identifies_layItems (hcurrent : ∀ item ∈ current, l.Identifies item)
    (hincoming : ∀ item ∈ incoming, l.Identifies item)
    (honce : ∀ v ∈ incoming, v.namesOnce = true) :
    ∀ item ∈ layItems current incoming, l.Identifies item := by
  refine forall_mem_foldl_lay hcurrent hincoming ?_
  rintro item hitem _ ⟨⟩ v _ hkey
  obtain ⟨s, hattribute, hitemKey⟩ := hincoming item hitem
  exact ⟨s, solidAttribute?_mergeElement (honce item hitem) hattribute,
    (referenceKey_of_mem honce item hitem v (Option.some.inj hkey)).trans hitemKey⟩

/-- Lists of items that are told apart merge into what laying gives, up to the order. -/
theorem mergedItems_perm (hcurrent : ∀ item ∈ current, l.Identifies item)
    (hincoming : ∀ item ∈ incoming, l.Identifies item)
    (hnodup : (incoming.map referenceKey).Nodup) (honce : ∀ v ∈ incoming, v.namesOnce = true) :
    (mergedItems current incoming).Perm (layItems current incoming) ∧
      (l.identifier ≠ "Order" → mergedItems current incoming = layItems current incoming) := by
  unfold mergedItems
  split
  · next h =>
    rw [List.isEmpty_iff.mp h]
    exact ⟨List.Perm.refl _, fun _ => rfl⟩
  split
  · next h =>
    rw [List.isEmpty_iff.mp h, layItems, foldl_lay_nil hnodup (referenceKey_of_mem honce)]
    exact ⟨List.Perm.refl _, fun _ => rfl⟩
  · rw [areKeyed_of_identifies hcurrent, areKeyed_of_identifies hincoming]
    exact ⟨inOrder_perm _, fun h =>
      inOrder_eq_self h (identifies_layItems hcurrent hincoming honce)⟩

end Lists

/-! ### Definitions -/

/-- The container of a merged definition is that of either side where the other has none, and
the containers merged otherwise. -/
theorem container_cases (ht : l.IsOrderly target) (hs : l.IsOrderly source)
    (honce : source.namesOnce = true) :
    (named l.container source = [] ∧
        named l.container (Policy.mergeElement target source) = named l.container target) ∨
      (named l.container target = [] ∧
        named l.container (Policy.mergeElement target source) = named l.container source) ∨
      ∃ v w, named l.container target = [v] ∧ named l.container source = [w] ∧
        named l.container (Policy.mergeElement target source) = [Policy.mergeElement v w] ∧
        v.isObject = true ∧ w.isObject = true ∧ referenceKey v = [] ∧ referenceKey w = [] := by
  rw [named_mergeElement honce ht.isObject hs.isObject l.isElement_container]
  rcases hs.container_eq with hsource | ⟨w, hsource, hw, hwkey⟩
  · exact Or.inl ⟨hsource, by rw [hsource]; rfl⟩
  rcases ht.container_eq with htarget | ⟨v, htarget, hv, hvkey⟩
  · exact Or.inr (Or.inl ⟨htarget, by rw [htarget, hsource]; rfl⟩)
  · refine Or.inr (Or.inr ⟨v, w, htarget, hsource, ?_, hv, hw, hvkey, hwkey⟩)
    simp [htarget, hsource, mergedItems, areKeyed, hvkey, hv, hw]

/-- The list of a definition laid onto another. -/
theorem items_mergeElement (ht : l.IsOrderly target) (hs : l.IsOrderly source)
    (honce : source.namesOnce = true) :
    l.items (Policy.mergeElement target source) =
      mergedItems (l.items target) (l.items source) := by
  simp only [items_eq]
  rcases container_cases ht hs honce with ⟨hsource, h⟩ | ⟨htarget, h⟩ |
    ⟨v, w, htarget, hsource, h, hv, hw, -, -⟩
  · rw [h, hsource]
    rfl
  · rw [h, htarget, List.flatMap_nil]
    unfold mergedItems
    split <;> simp_all
  · have honceContainer : w.namesOnce = true :=
      namesOnce_of_mem_named honce (by rw [hsource]; exact List.mem_singleton_self w)
    rw [h, htarget, hsource, List.flatMap_singleton, List.flatMap_singleton,
      List.flatMap_singleton, named_mergeElement honceContainer hv hw l.isElement_element]

/-- **A definition laid onto another one has an orderly list again.** -/
theorem IsOrderly.mergeElement (ht : l.IsOrderly target) (hs : l.IsOrderly source)
    (honce : source.namesOnce = true) : l.IsOrderly (Policy.mergeElement target source) := by
  have honceItems : ∀ item ∈ l.items source, item.namesOnce = true :=
    fun item h => namesOnce_of_mem_children _ honce h
  have hperm := (mergedItems_perm ht.identifies hs.identifies hs.nodup honceItems).1
  obtain ⟨hsingle, hcontainer⟩ :
      (named l.container (Policy.mergeElement target source)).length ≤ 1 ∧
        ∀ v ∈ named l.container (Policy.mergeElement target source),
          v.isObject = true ∧ referenceKey v = [] := by
    rcases container_cases ht hs honce with ⟨-, h⟩ | ⟨-, h⟩ |
      ⟨v, w, -, hsource, h, hv, hw, hvkey, hwkey⟩
    · rw [h]
      exact ⟨ht.container_single, ht.container⟩
    · rw [h]
      exact ⟨hs.container_single, hs.container⟩
    · -- two containers without keys are one of this kind when merged
      have honceContainer : w.namesOnce = true :=
        namesOnce_of_mem_named honce (by rw [hsource]; exact List.mem_singleton_self w)
      rw [h]
      refine ⟨Nat.le_refl 1, ?_⟩
      simpa using ⟨isObject_mergeElement v hw,
        (referenceKey_mergeElement honceContainer (hvkey.trans hwkey.symm)).trans hwkey⟩
  refine ⟨isObject_mergeElement target hs.isObject, hsingle, hcontainer, ?_, ?_⟩
  · rw [items_mergeElement ht hs honce]
    exact fun item hitem => identifies_layItems ht.identifies hs.identifies honceItems item
      (hperm.mem_iff.mp hitem)
  · rw [items_mergeElement ht hs honce, (hperm.map referenceKey).nodup_iff, layItems,
      map_foldl_lay _ (referenceKey_of_mem honceItems)]
    exact nodup_addAllNew ht.nodup _

/-- **Definitions laid onto each other have an item for each key: all items of the key, laid
onto each other.** Unless they are numbered, the items stay in the order of their keys. -/
theorem layers_items {definitions : List Value} (h : ∀ d ∈ definitions, l.IsOrderly d)
    (honce : ∀ d ∈ definitions, d.namesOnce = true) {node : Value}
    (hnode : laid? Policy.mergeElement definitions = some node) :
    l.IsOrderly node ∧
      Layers referenceKey Policy.mergeElement (definitions.flatMap l.items) (l.items node) ∧
      (l.identifier ≠ "Order" → (l.items node).map referenceKey =
        distinct ((definitions.flatMap l.items).map referenceKey)) := by
  refine laid?_induction (Q := fun d => l.IsOrderly d ∧ d.namesOnce = true)
    (P := fun definitions node => l.IsOrderly node ∧
      Layers referenceKey Policy.mergeElement (definitions.flatMap l.items) (l.items node) ∧
      (l.identifier ≠ "Order" → (l.items node).map referenceKey =
        distinct ((definitions.flatMap l.items).map referenceKey)))
    ?_ ?_ (fun d hd => ⟨h d hd, honce d hd⟩) hnode
  · rintro first ⟨hfirst, -⟩
    simpa using ⟨hfirst, Layers.of_nodup _ hfirst.nodup,
      fun _ => (distinct_eq_self hfirst.nodup).symm⟩
  · -- one more definition is laid onto what those below it amount to
    rintro below result last ⟨hbelow, hlayers, hkeys⟩ ⟨hlast, honceLast⟩
    have honceItems : ∀ item ∈ l.items last, item.namesOnce = true :=
      fun item hitem => namesOnce_of_mem_children _ honceLast hitem
    have hkeep := referenceKey_of_mem honceItems
    obtain ⟨hperm, heq⟩ :=
      mergedItems_perm hbelow.identifies hlast.identifies hlast.nodup honceItems
    rw [← items_mergeElement hbelow hlast honceLast] at hperm heq
    rw [List.flatMap_append, List.flatMap_singleton]
    refine ⟨hbelow.mergeElement hlast honceLast, (hlayers.foldl_lay hkeep).perm hperm,
      fun horder => ?_⟩
    rw [heq horder, layItems, map_foldl_lay _ hkeep, hkeys horder, List.map_append, distinct,
      ← addAllNew_append]
    rfl

end Listing

end Policy
end TrustFramework
