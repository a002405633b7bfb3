import TrustFramework.Proofs.Policy.Merging
import TrustFramework.Proofs.Sorting
import TrustFramework.Proofs.Union
import TrustFramework.Proofs.Value

/-!
# All that stands in a merged element

A merged element has the fields of both elements, and nothing else.  Attributes and the text are
those of the derived one where it has them.  Children of one name that can be told apart are the
ones of the base, each with the derived one of its key laid onto it, and behind them the new ones,
all of them in the order of their numbers if every one has a number; so no child is lost, and none
comes twice.

## Main definitions

* `Policy.AreToldApart` — elements have a key each, and no two of them the same.
* `Policy.AreMerged` — elements are those of a base with derived ones laid onto them.
* `Policy.IsMerge` — fields are those of two elements merged.

## Main results

* `Policy.areMerged_mergedItems` — children that are told apart, merged.
* `Policy.exists_isMerge` — **two elements merged.**
-/

namespace TrustFramework
namespace Policy

variable {current incoming items : List Value}

/-! ### Children -/

/-- Elements are told apart: there are some, each has a key, and no two have the same. -/
structure AreToldApart (items : List Value) : Prop where
  ne_nil : items ≠ []
  keyed : ∀ v ∈ items, referenceKey v ≠ []
  nodup : (items.map referenceKey).Nodup

theorem AreToldApart.areKeyed (h : AreToldApart items) : areKeyed items = true :=
  List.all_eq_true.mpr fun v hv => by simpa using h.keyed v hv

/-- Elements are those of a base, each with the derived one of its key laid onto it, and behind
them those with new keys; sorted by their numbers if they have some. -/
structure AreMerged (current incoming merged : List Value) : Prop where
  sorted : AreNumbered (overlaid referenceKey mergeElement current incoming) →
    IsSortedBy orderOf (overlaid referenceKey mergeElement current incoming) merged
  unsorted : ¬ AreNumbered (overlaid referenceKey mergeElement current incoming) →
    merged = overlaid referenceKey mergeElement current incoming
  /-- No key comes twice. -/
  nodup : (merged.map referenceKey).Nodup
  /-- No key is lost, and none is made up. -/
  mem_iff : ∀ key, key ∈ merged.map referenceKey ↔
    key ∈ current.map referenceKey ∨ key ∈ incoming.map referenceKey

/-- Children that are told apart are laid onto each other by their keys. -/
theorem mergedItems_eq_inOrder (hcurrent : AreToldApart current)
    (hincoming : AreToldApart incoming) (honce : ∀ w ∈ incoming, w.namesOnce = true) :
    mergedItems current incoming =
      inOrder (overlaid referenceKey mergeElement current incoming) := by
  rw [mergedItems_of_areKeyed hcurrent.ne_nil hincoming.ne_nil hcurrent.areKeyed
    hincoming.areKeyed, foldl_lay_eq_overlaid hcurrent.nodup hincoming.nodup
    (referenceKey_of_mem honce)]

/-- **Children that are told apart, merged.** -/
theorem areMerged_mergedItems (hcurrent : AreToldApart current)
    (hincoming : AreToldApart incoming) (honce : ∀ w ∈ incoming, w.namesOnce = true) :
    AreMerged current incoming (mergedItems current incoming) := by
  have hkeep := referenceKey_of_mem honce
  have hkeys : (overlaid referenceKey mergeElement current incoming).map referenceKey =
      addAllNew (current.map referenceKey) (incoming.map referenceKey) := by
    rw [← foldl_lay_eq_overlaid hcurrent.nodup hincoming.nodup hkeep, map_foldl_lay _ hkeep]
  have hperm := (inOrder_perm (overlaid referenceKey mergeElement current incoming)).map
    referenceKey
  rw [hkeys] at hperm
  rw [mergedItems_eq_inOrder hcurrent hincoming honce]
  exact
    { sorted := fun h => by
        rw [inOrder_of_areNumbered h]
        exact isSortedBy_mergeSort orderOf _
      unsorted := inOrder_of_not_areNumbered
      nodup := hperm.nodup_iff.mpr (nodup_addAllNew hcurrent.nodup _)
      mem_iff := fun key => hperm.mem_iff.trans mem_addAllNew }

/-! ### Fields -/

/-- The names stay in their order, those that are new follow. -/
theorem names_mergeFields (news old : Fields Value) :
    Fields.names (mergeFields news old) = addAllNew old.names news.names := by
  induction news generalizing old with
  | nil => rw [mergeFields]; rfl
  | cons entry news ih =>
    rw [mergeFields_cons, ih, Fields.names_set, Fields.has_eq_contains]
    rfl

/-- Fields are those of two elements merged. -/
structure IsMerge (old news merged : Fields Value) : Prop where
  names_eq : merged.names = old.names ++ news.names.filter fun name => !old.names.contains name
  nodup : merged.names.Nodup
  /-- Attributes and the text are the derived ones, if there are some. -/
  own : ∀ name, Tree.isElement name = false →
    merged.get? name = (news.get? name).or (old.get? name)
  /-- What only one of the elements has stays as it is. -/
  of_old : ∀ name, news.get? name = none → merged.get? name = old.get? name
  of_news : ∀ name, old.get? name = none → merged.get? name = news.get? name
  children : ∀ name, Tree.isElement name = true → ∀ v w, old.get? name = some v →
    news.get? name = some w → AreToldApart (Node.asList v) → AreToldApart (Node.asList w) →
      ∃ x, merged.get? name = some x ∧
        AreMerged (Node.asList v) (Node.asList w) (Node.asList x)

/-- **Two elements merged** have the fields of both, and their children are merged. -/
theorem exists_isMerge {old news : Fields Value} (hold : old.names.Nodup)
    (hnews : (Value.object news).namesOnce = true) :
    ∃ merged, mergeElement (.object old) (.object news) = .object merged ∧
      IsMerge old news merged := by
  obtain ⟨hnames, hvalues⟩ := Value.namesOnce_object_iff.mp hnews
  refine ⟨mergeFields news old, by rw [mergeElement, mergeOnto], ?_⟩
  have hget := get?_mergeFields hnames old
  exact
    { names_eq := by rw [names_mergeFields, addAllNew_eq_append _ hnames]
      nodup := by
        rw [names_mergeFields]
        exact nodup_addAllNew hold _
      own := fun name hname => by
        rw [hget]
        cases news.get? name <;> simp [mergedField, hname]
      of_old := fun name hnone => by rw [hget, hnone]
      of_news := fun name hnone => by
        rw [hget, hnone]
        cases news.get? name <;> simp [mergedField]
      children := fun name hname v w hv hw hcurrent hincoming => by
        refine ⟨mergedField name (some v) w, by rw [hget, hv, hw], ?_⟩
        rw [mergedField, if_pos hname, asList_mergeChildren]
        refine areMerged_mergedItems hcurrent hincoming fun u hu => ?_
        exact Node.namesOnce_of_mem_asList (hvalues _ (Fields.mem_of_get? hw)) hu }

/-- A step of a journey. -/
def Steps.numbered (order type : String) : Value :=
  .object [("@_Order", .text order), ("@_Type", .text type)]

/-- A step of a journey is replaced, and one is added before it. -/
theorem exists_isMerge_steps :
    let steps := [Steps.numbered "1" "ClaimsExchange", Steps.numbered "3" "SendClaims"]
    let derived := [Steps.numbered "3" "GetClaims", Steps.numbered "2" "ClaimsExchange"]
    let old : Fields Value := [("@_Id", .text "SignIn"), ("OrchestrationStep", .list steps)]
    let news : Fields Value := [("OrchestrationStep", .list derived), ("#text", .text "x")]
    old.names.Nodup ∧ (Value.object news).namesOnce = true ∧
      AreToldApart steps ∧ AreToldApart derived ∧
      ∃ merged x, mergeElement (.object old) (.object news) = .object merged ∧
        IsMerge old news merged ∧ Fields.get? merged "OrchestrationStep" = some x ∧
        IsSortedBy orderOf [Steps.numbered "1" "ClaimsExchange", Steps.numbered "3" "GetClaims",
          Steps.numbered "2" "ClaimsExchange"] (Node.asList x) := by
  intro steps derived old news
  have hold : old.names.Nodup := by decide
  have hnews : (Value.object news).namesOnce = true := by decide
  have hsteps : AreToldApart steps := ⟨by decide, by decide, by decide⟩
  have hderived : AreToldApart derived := ⟨by decide, by decide, by decide⟩
  obtain ⟨merged, hmerge, hmerged⟩ := exists_isMerge hold hnews
  obtain ⟨x, hx, hchildren⟩ := hmerged.children "OrchestrationStep" (by decide) (.list steps)
    (.list derived) (by decide) (by decide) hsteps hderived
  have hall : overlaid referenceKey mergeElement steps derived =
      [Steps.numbered "1" "ClaimsExchange", Steps.numbered "3" "GetClaims",
        Steps.numbered "2" "ClaimsExchange"] := by decide
  have hsorted := hchildren.sorted
  simp only [Node.asList, hall] at hsorted
  exact ⟨hold, hnews, hsteps, hderived, merged, x, hmerge, hmerged, hx,
    hsorted (by unfold AreNumbered; decide)⟩

end Policy
end TrustFramework
