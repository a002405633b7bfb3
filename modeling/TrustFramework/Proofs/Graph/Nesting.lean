import Mathlib.Data.List.Perm.Subperm
import Mathlib.Logic.Relation
import TrustFramework.Graph.Journey
import TrustFramework.Proofs.Union

/-!
# Sub-journeys inside each other

Sub-journeys call sub-journeys.  If none contains itself, those inside each other are all
different, so that there are at most as many of them as the policy has, and drawing comes to an
end.

## Main definitions

* `Atlas.Calls` — a sub-journey calls another.
* `Atlas.IsAcyclic` — no sub-journey contains itself.

## Main results

* `Atlas.ends_of_isAcyclic` — **drawing ends if no sub-journey contains itself.**
-/

namespace TrustFramework
namespace Atlas

open Relation (TransGen)

variable {atlas : Atlas}

/-- A sub-journey has a step that calls another, which the policy may not have. -/
def Calls (atlas : Atlas) (id other : String) : Prop :=
  ∃ subJourney, atlas.subJourneys.get? id = some subJourney ∧
    ∃ s ∈ OrchestrationStep.readAll subJourney,
      s.kind = "InvokeSubJourney" ∧ subJourneyOf s = other

/-- No sub-journey contains itself, be it in a sub-journey inside it. -/
def IsAcyclic (atlas : Atlas) : Prop := ∀ id, ¬ TransGen atlas.Calls id id

theorem calledBy?_eq_some_iff {s : OrchestrationStep} {subJourney : Value} :
    atlas.calledBy? s = some subJourney ↔
      s.kind = "InvokeSubJourney" ∧ atlas.subJourneys.get? (subJourneyOf s) = some subJourney := by
  unfold calledBy?
  split <;> simp [*]

/-- If a call does not come to an end within a depth, one of those inside does not within the
depth below. -/
theorem exists_of_endsWithin_eq_false {bound : Nat} {steps : List OrchestrationStep}
    (h : atlas.endsWithin (bound + 1) steps = false) :
    ∃ s ∈ steps, ∃ subJourney, s.kind = "InvokeSubJourney" ∧
      atlas.subJourneys.get? (subJourneyOf s) = some subJourney ∧
      atlas.endsWithin bound (OrchestrationStep.readAll subJourney) = false := by
  obtain ⟨subJourney, hsub, hends⟩ := List.all_eq_false.mp h
  obtain ⟨s, hs, hcalled⟩ := List.mem_filterMap.mp hsub
  obtain ⟨hkind, hget⟩ := calledBy?_eq_some_iff.mp hcalled
  exact ⟨s, hs, subJourney, hkind, hget, by simpa using hends⟩

theorem mem_names_of_get? {id : String} {subJourney : Value}
    (h : atlas.subJourneys.get? id = some subJourney) : id ∈ Fields.names atlas.subJourneys := by
  rw [← List.contains_iff_mem, ← Fields.has_eq_contains, Fields.has_eq_isSome, h]
  rfl

/-- If no sub-journey contains itself, none is entered twice on the way down, so that a way that
has not come to an end has entered at most as many as there are. -/
theorem length_add_lt_of_endsWithin_eq_false (hacyclic : atlas.IsAcyclic) (bound : Nat)
    {id : String} {subJourney : Value} {entered : List String} (hnodup : entered.Nodup)
    (hnames : entered ⊆ Fields.names atlas.subJourneys)
    (hinside : ∀ other ∈ entered, TransGen atlas.Calls other id)
    (hget : atlas.subJourneys.get? id = some subJourney)
    (hends : atlas.endsWithin bound (OrchestrationStep.readAll subJourney) = false) :
    entered.length + bound < atlas.subJourneys.length := by
  -- coming back to a sub-journey would be a circle
  have hnew : id ∉ entered := fun hmem => hacyclic id (hinside id hmem)
  have hnodup' : (id :: entered).Nodup := List.nodup_cons.mpr ⟨hnew, hnodup⟩
  have hnames' : id :: entered ⊆ Fields.names atlas.subJourneys :=
    List.cons_subset.mpr ⟨mem_names_of_get? hget, hnames⟩
  induction bound generalizing id subJourney entered with
  | zero =>
    have h := (List.subperm_of_subset hnodup' hnames').length_le
    simp only [List.length_cons, Fields.names, List.length_map] at h
    omega
  | succ bound ih =>
    obtain ⟨s, hs, inner, hkind, hinner, hends⟩ := exists_of_endsWithin_eq_false hends
    have hcall : atlas.Calls id (subJourneyOf s) := ⟨subJourney, hget, s, hs, hkind, rfl⟩
    have hinside' : ∀ other ∈ id :: entered, TransGen atlas.Calls other (subJourneyOf s) := by
      intro other hother
      rcases List.mem_cons.mp hother with rfl | hother
      · exact TransGen.single hcall
      · exact (hinside other hother).tail hcall
    have hnew' : subJourneyOf s ∉ id :: entered := fun hmem => hacyclic _ (hinside' _ hmem)
    have h := ih hnodup' hnames' hinside' hinner hends hnew'
      (List.nodup_cons.mpr ⟨hnew', hnodup'⟩)
      (List.cons_subset.mpr ⟨mem_names_of_get? hinner, hnames'⟩)
    rw [List.length_cons] at h
    omega

/-- **Drawing ends if no sub-journey contains itself.** -/
theorem ends_of_isAcyclic (hacyclic : atlas.IsAcyclic) (journey : Value) :
    atlas.ends journey = true := by
  by_contra hends
  obtain ⟨s, -, subJourney, -, hget, hlate⟩ :=
    exists_of_endsWithin_eq_false (Bool.eq_false_iff.mpr hends)
  have h := length_add_lt_of_endsWithin_eq_false hacyclic _ List.nodup_nil (List.nil_subset _)
    (by simp) hget hlate
  simp at h

end Atlas
end TrustFramework
