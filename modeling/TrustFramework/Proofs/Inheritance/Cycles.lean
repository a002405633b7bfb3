import Mathlib
import TrustFramework.Processing
import TrustFramework.Proofs.Entity.Collection

/-!
# Circles of includes

Two readings of the includes of profiles meet here.  Consolidation follows the
include of a profile as a whole, which all its versions laid onto each other
name.  The check of the includes walks from the version that counts of each
profile, and at every profile it sees only the versions up to the depth it has
come down to, so that it can miss an include that a higher version names.

A circle of the first reading makes consolidation go on forever.  The check finds
each circle that it sees in full from one of its profiles, and no other.

## Main definitions

* `fullInclude?`, `IncludesInFull`, `IsAcyclic` — the includes of profiles as a whole.
* `onward?`, `Passes` — the versions that the check passes from a profile.
* `SeesInFull` — from a profile on, the check sees what the profiles as a whole include.

## Main results

* `all_ends_iff_isAcyclic` — when following the includes of profiles as a whole comes to
  an end.
* `circleFault?_ne_none` — a walk of the check that does not end is a fault.
* `not_seesInFull_of_cycle` — no circle of sound includes is seen in full.
* `Processing.isKeyed_extracted` — profiles stand under their own identifiers.
* `consolidation_ends_iff` — **on which sound stores consolidation comes to an end.**
* `sound_circle` — sound stores on which it does not.
-/

namespace TrustFramework

open Relation

namespace Profiles

variable {profiles : Profiles}

/-! ### Includes of profiles as a whole -/

/-- The profile that a profile as a whole includes, unless it is itself. -/
def fullInclude? (profiles : Profiles) (id : String) : Option String :=
  (profiles.own? id).bind fun own => includedBy? own id

/-- A profile as a whole includes another one. -/
def IncludesInFull (profiles : Profiles) (id included : String) : Prop :=
  profiles.fullInclude? id = some included

/-- No profile comes back to itself through the includes of profiles as a whole. -/
def IsAcyclic (profiles : Profiles) : Prop := ∀ id, ¬ TransGen profiles.IncludesInFull id id

/-- A profile includes one profile at most. -/
theorem IncludesInFull.unique {id a b : String} (ha : profiles.IncludesInFull id a)
    (hb : profiles.IncludesInFull id b) : a = b := Option.some.inj (ha.symm.trans hb)

theorem byDepth_eq_nil_iff {α : Type} {versions : List (Version α)} :
    byDepth versions = [] ↔ versions = [] := by
  rw [← List.length_eq_zero_iff, byDepth, List.length_mergeSort, List.length_eq_zero_iff]

theorem folded?_eq_none_iff {α : Type} [Definition α] {versions : List (Version α)} :
    folded? versions = none ↔ versions = [] := by
  rw [← byDepth_eq_nil_iff, folded?]
  cases byDepth versions <;> simp

/-- Only a profile with a version of a file includes another one. -/
theorem IncludesInFull.exists_original {id included : String}
    (h : profiles.IncludesInFull id included) : ∃ v, v ∈ profiles.originals id := by
  apply List.exists_mem_of_ne_nil
  intro hnil
  have hown : profiles.own? id = none := folded?_eq_none_iff.mpr hnil
  simp [IncludesInFull, fullInclude?, hown] at h

theorem IncludesInFull.mem_names {id included : String}
    (h : profiles.IncludesInFull id included) : id ∈ profiles.names := by
  obtain ⟨v, hv⟩ := h.exists_original
  exact Collection.mem_names_of_mem_versions (Collection.mem_versions_of_mem_originals hv)

/-- On a circle, what comes next is on a circle. -/
theorem IncludesInFull.cycle {id included : String} (h : profiles.IncludesInFull id included)
    (hcycle : TransGen profiles.IncludesInFull id id) :
    TransGen profiles.IncludesInFull included included := by
  obtain ⟨other, hstep, hrest⟩ := TransGen.head'_iff.mp hcycle
  rw [h.unique hstep]
  exact TransGen.tail' hrest hstep

/-- What is reached from a circle is on a circle. -/
theorem cycle_of_reached {id other : String}
    (hcycle : TransGen profiles.IncludesInFull id id)
    (h : TransGen profiles.IncludesInFull id other) :
    TransGen profiles.IncludesInFull other other := by
  induction h with
  | single hstep => exact hstep.cycle hcycle
  | tail _ hstep ih => exact hstep.cycle ih

/-! ### When following the includes ends -/

/-- There are not more distinct profiles than profiles. -/
theorem length_le_of_subset_names {passed : List String} (hnodup : passed.Nodup)
    (hnames : passed ⊆ profiles.names) : passed.length ≤ profiles.length := by
  have h := (List.subperm_of_subset hnodup hnames).length_le
  simpa [Fields.names] using h

theorem endsWithin_succ (bound : Nat) (id : String) :
    profiles.endsWithin (bound + 1) id =
      match profiles.fullInclude? id with
      | none => true
      | some included => profiles.endsWithin bound included := rfl

/-- From a circle the includes never come to an end. -/
theorem endsWithin_eq_false_of_cycle (bound : Nat) {id : String}
    (hcycle : TransGen profiles.IncludesInFull id id) :
    profiles.endsWithin bound id = false := by
  induction bound generalizing id with
  | zero => rfl
  | succ bound ih =>
    obtain ⟨included, hstep, -⟩ := TransGen.head'_iff.mp hcycle
    rw [endsWithin_succ, show profiles.fullInclude? id = some included from hstep]
    exact ih (hstep.cycle hcycle)

/-- Without circles no profile is passed twice, so that a walk that has not come to an
end has passed at most as many profiles as there are. -/
theorem length_add_le_of_endsWithin_eq_false (hacyclic : profiles.IsAcyclic) (bound : Nat)
    {id : String} {passed : List String} (hnodup : passed.Nodup)
    (hnames : passed ⊆ profiles.names)
    (hreach : ∀ other ∈ passed, TransGen profiles.IncludesInFull other id)
    (hends : profiles.endsWithin bound id = false) :
    passed.length + bound ≤ profiles.length := by
  induction bound generalizing id passed with
  | zero => exact length_le_of_subset_names hnodup hnames
  | succ bound ih =>
    rw [endsWithin_succ] at hends
    cases hstep : profiles.fullInclude? id with
    | none => simp [hstep] at hends
    | some included =>
      rw [hstep] at hends
      -- coming back to a profile that was passed would be a circle
      have hnew : id ∉ passed := fun hmem => hacyclic id (hreach id hmem)
      have hreach' : ∀ other ∈ id :: passed,
          TransGen profiles.IncludesInFull other included := by
        intro other hother
        rcases List.mem_cons.mp hother with rfl | hother
        · exact TransGen.single hstep
        · exact (hreach other hother).tail hstep
      have h := ih (List.nodup_cons.mpr ⟨hnew, hnodup⟩)
        (List.cons_subset.mpr ⟨IncludesInFull.mem_names hstep, hnames⟩) hreach' hends
      rw [List.length_cons] at h
      omega

/-- Without circles the includes from every profile on come to an end. -/
theorem ends_of_isAcyclic (hacyclic : profiles.IsAcyclic) (id : String) :
    profiles.ends id = true := by
  by_contra hends
  have hlate : profiles.endsWithin (profiles.length + 1) id = false := by
    simpa [ends] using hends
  have h := length_add_le_of_endsWithin_eq_false hacyclic (profiles.length + 1)
    List.nodup_nil (List.nil_subset _) (by simp) hlate
  rw [List.length_nil] at h
  omega

/-- **The includes of all profiles come to an end exactly when there is no circle.** -/
theorem all_ends_iff_isAcyclic :
    profiles.names.all profiles.ends = true ↔ profiles.IsAcyclic := by
  rw [List.all_eq_true]
  constructor
  · intro hends id hcycle
    obtain ⟨included, hstep, -⟩ := TransGen.head'_iff.mp hcycle
    have h := hends id (IncludesInFull.mem_names hstep)
    rw [ends, endsWithin_eq_false_of_cycle _ hcycle] at h
    exact Bool.false_ne_true h
  · intro hacyclic id _
    exact ends_of_isAcyclic hacyclic id

/-! ### What the check sees -/

/-- The version at which the check goes on behind a version. -/
def onward? (profiles : Profiles) (v : Version TechnicalProfile) :
    Option (Version TechnicalProfile) :=
  (profiles.includeAt? v.id v.depth).bind fun included => profiles.visible? included v.depth

/-- From a profile, the check passes a version. -/
def Passes (profiles : Profiles) (id : String) (v : Version TechnicalProfile) : Prop :=
  ∃ first, profiles.effective? id = some first ∧
    ReflTransGen (fun w next => profiles.onward? w = some next) first v

/-- From a profile on, the include that the check sees at every version it passes is the
one of the profile as a whole. -/
def SeesInFull (profiles : Profiles) (id : String) : Prop :=
  ∀ v, profiles.Passes id v → profiles.includeAt? v.id v.depth = profiles.fullInclude? v.id

theorem checkIncludes_eq_ok_iff :
    profiles.checkIncludes = .ok () ↔
      (∀ v ∈ profiles.values.flatten, profiles.unresolvedFault? v = none) ∧
        ∀ id ∈ profiles.names, profiles.circleFrom? id = none := by
  rw [← List.findSome?_eq_none_iff, ← List.findSome?_eq_none_iff, checkIncludes]
  cases profiles.values.flatten.findSome? profiles.unresolvedFault? <;>
    cases profiles.names.findSome? profiles.circleFrom? <;> simp

theorem mem_upTo {id : String} {depth : Int} {v : Version TechnicalProfile} :
    v ∈ profiles.upTo id depth ↔ v ∈ profiles.originals id ∧ v.depth ≤ depth := by
  simp [upTo]

theorem visible?_isSome_iff {id : String} {depth : Int} :
    (profiles.visible? id depth).isSome ↔ ∃ v ∈ profiles.originals id, v.depth ≤ depth := by
  rw [visible?, highest?_isSome_iff]
  constructor
  · intro hne
    obtain ⟨v, hv⟩ := List.exists_mem_of_ne_nil _ hne
    exact ⟨v, mem_upTo.mp hv⟩
  · rintro ⟨v, hv⟩
    exact List.ne_nil_of_mem (mem_upTo.mpr hv)

theorem mem_originals_of_visible? {id : String} {depth : Int} {v : Version TechnicalProfile}
    (h : profiles.visible? id depth = some v) : v ∈ profiles.originals id :=
  (mem_upTo.mp (mem_of_highest? h)).1

/-- What is in force at a depth is named by a version up to there. -/
theorem exists_of_includeAt? {id included : String} {depth : Int}
    (h : profiles.includeAt? id depth = some included) :
    ∃ v ∈ profiles.originals id, v.depth ≤ depth ∧ includeOf? v = some included := by
  obtain ⟨v, hv, hincludes⟩ := List.exists_of_findSome?_eq_some h
  obtain ⟨horiginal, hdepth⟩ := mem_upTo.mp (List.mem_mergeSort.mp hv)
  exact ⟨v, horiginal, hdepth, hincludes⟩

theorem not_isConsolidated_of_mem_originals {id : String} {v : Version TechnicalProfile}
    (h : v ∈ profiles.originals id) : v.isConsolidated = false := by
  simpa using (List.mem_filter.mp h).2

/-- In sound includes, what a version includes is there at its depth. -/
theorem visible?_isSome_of_includeOf?
    (hresolved : ∀ v ∈ profiles.values.flatten, profiles.unresolvedFault? v = none)
    {id included : String} {v : Version TechnicalProfile} (hv : v ∈ profiles.originals id)
    (h : includeOf? v = some included) : (profiles.visible? included v.depth).isSome := by
  have hfault := hresolved v
    (Collection.mem_values_of_mem_versions (Collection.mem_versions_of_mem_originals hv))
  by_contra hnone
  simp [unresolvedFault?, not_isConsolidated_of_mem_originals hv, h, hnone] at hfault

/-- In sound includes, the profile in force at a depth is there at that depth. -/
theorem visible?_isSome_of_includeAt?
    (hresolved : ∀ v ∈ profiles.values.flatten, profiles.unresolvedFault? v = none)
    {id included : String} {depth : Int}
    (h : profiles.includeAt? id depth = some included) :
    (profiles.visible? included depth).isSome := by
  obtain ⟨v, hv, hdepth, hincludes⟩ := exists_of_includeAt? h
  have hvisible := visible?_isSome_of_includeOf? hresolved hv hincludes
  -- what is there at the depth of the version is there further down too
  obtain ⟨w, hw, hle⟩ := visible?_isSome_iff.mp hvisible
  exact visible?_isSome_iff.mpr ⟨w, hw, Int.le_trans hle hdepth⟩

/-- **A walk of the check that does not end is a fault.**  The profiles of the trail
are distinct, so that one of them comes again before the bound is used up. -/
theorem circleFault?_ne_none (bound : Nat) {trail : List String}
    {v : Version TechnicalProfile} (hnodup : trail.Nodup) (hnames : trail ⊆ profiles.names)
    (hbound : profiles.length < trail.length + bound)
    (hgoes : ∀ w, ReflTransGen (fun w next => profiles.onward? w = some next) v w →
      (profiles.onward? w).isSome) :
    profiles.circleFault? bound trail v ≠ none := by
  induction bound generalizing trail v with
  | zero =>
    have h := length_le_of_subset_names hnodup hnames
    omega
  | succ bound ih =>
    obtain ⟨next, hnext⟩ := Option.isSome_iff_exists.mp (hgoes v ReflTransGen.refl)
    obtain ⟨included, hincludes, hvisible⟩ := Option.bind_eq_some_iff.mp hnext
    rw [circleFault?, hincludes]
    by_cases hmem : included ∈ trail
    · -- the walk comes back to its own trail, and this is the fault
      simp [hmem]
    · have hname : included ∈ profiles.names :=
        Collection.mem_names_of_mem_versions
          (Collection.mem_versions_of_mem_originals (mem_originals_of_visible? hvisible))
      simp only [List.contains_iff_mem, hmem, if_false, hvisible]
      refine ih ?_ ?_ ?_ ?_
      · exact hnodup.append (List.nodup_singleton _) (List.disjoint_singleton.mpr hmem)
      · exact List.append_subset.mpr ⟨hnames, by simpa using hname⟩
      · rw [List.length_append, List.length_singleton]
        omega
      · intro w hw
        exact hgoes w (ReflTransGen.head hnext hw)

/-- From a profile of a circle that the check sees in full, it passes profiles of circles
only, and always goes on. -/
theorem cycle_of_passes (hkeyed : Collection.IsKeyed profiles)
    (hresolved : ∀ v ∈ profiles.values.flatten, profiles.unresolvedFault? v = none)
    {id : String} (hsees : profiles.SeesInFull id)
    (hcycle : TransGen profiles.IncludesInFull id id) {v : Version TechnicalProfile}
    (hpasses : profiles.Passes id v) :
    TransGen profiles.IncludesInFull v.id v.id ∧ (profiles.onward? v).isSome := by
  obtain ⟨first, hfirst, hwalk⟩ := hpasses
  -- what the check sees next from a profile of a circle
  have hgoes : ∀ w, profiles.Passes id w → TransGen profiles.IncludesInFull w.id w.id →
      ∃ included, profiles.includeAt? w.id w.depth = some included ∧
        profiles.IncludesInFull w.id included := by
    intro w hw hw'
    obtain ⟨included, hstep, -⟩ := TransGen.head'_iff.mp hw'
    exact ⟨included, (hsees w hw).trans hstep, hstep⟩
  -- the walk follows the includes in full, and so it never leaves the circles
  have hv : TransGen profiles.IncludesInFull v.id v.id := by
    induction hwalk with
    | refl =>
      rw [hkeyed.id_eq (Collection.mem_versions_of_effective? hfirst)]
      exact hcycle
    | @tail w next hw hnext ih =>
      obtain ⟨included, hincludes, hstep⟩ := hgoes w ⟨first, hfirst, hw⟩ ih
      have hvisible : profiles.visible? included w.depth = some next := by
        simpa [onward?, hincludes] using hnext
      rw [hkeyed.id_eq (Collection.mem_versions_of_mem_originals
        (mem_originals_of_visible? hvisible))]
      exact hstep.cycle ih
  obtain ⟨included, hincludes, -⟩ := hgoes v ⟨first, hfirst, hwalk⟩ hv
  refine ⟨hv, ?_⟩
  simpa [onward?, hincludes] using visible?_isSome_of_includeAt? hresolved hincludes

/-- **No circle of sound includes is seen in full.** -/
theorem not_seesInFull_of_cycle (hkeyed : Collection.IsKeyed profiles)
    (hchecked : profiles.checkIncludes = .ok ()) {id : String}
    (hcycle : TransGen profiles.IncludesInFull id id) : ¬ profiles.SeesInFull id := by
  intro hsees
  obtain ⟨hresolved, hcircles⟩ := checkIncludes_eq_ok_iff.mp hchecked
  obtain ⟨included, hstep, -⟩ := TransGen.head'_iff.mp hcycle
  obtain ⟨v, hv⟩ := hstep.exists_original
  obtain ⟨first, hfirst⟩ := Option.isSome_iff_exists.mp
    (Collection.effective?_isSome (Collection.mem_versions_of_mem_originals hv))
  have hfault := hcircles id hstep.mem_names
  rw [circleFrom?, hfirst, Option.bind_some] at hfault
  -- from a circle the check always goes on, and it cannot do so without a fault
  refine circleFault?_ne_none (profiles.length + 1) (List.nodup_singleton id)
    (by simpa using hstep.mem_names) (by simp; omega) ?_ hfault
  intro w hw
  exact (cycle_of_passes hkeyed hresolved hsees hcycle ⟨first, hfirst, hw⟩).2

/-- The include in force at the depth of every version of a profile is the one of the
profile as a whole: no version changes what a lower one includes. -/
def IsSteady (profiles : Profiles) : Prop :=
  ∀ id, ∀ v ∈ profiles.versions id, profiles.includeAt? id v.depth = profiles.fullInclude? id

/-- The versions that the check passes are versions of the profiles they name. -/
theorem mem_versions_of_passes (hkeyed : Collection.IsKeyed profiles) {id : String}
    {v : Version TechnicalProfile} (h : profiles.Passes id v) : v ∈ profiles.versions v.id := by
  obtain ⟨first, hfirst, hwalk⟩ := h
  have hmem : ∃ name, v ∈ profiles.versions name := by
    cases hwalk with
    | refl => exact ⟨id, Collection.mem_versions_of_effective? hfirst⟩
    | tail _ hnext =>
      obtain ⟨included, -, hvisible⟩ := Option.bind_eq_some_iff.mp hnext
      exact ⟨included, Collection.mem_versions_of_mem_originals
        (mem_originals_of_visible? hvisible)⟩
  obtain ⟨name, hname⟩ := hmem
  rw [hkeyed.id_eq hname]
  exact hname

theorem IsSteady.seesInFull (hsteady : profiles.IsSteady)
    (hkeyed : Collection.IsKeyed profiles) (id : String) : profiles.SeesInFull id := by
  intro v hpasses
  exact hsteady v.id v (mem_versions_of_passes hkeyed hpasses)

/-! ### Consolidation -/

end Profiles

/-- A store is consolidated exactly when there is no circle. -/
theorem Store.withConsolidated_ok_iff (fileName : String) (fileCount : Int) (store : Store) :
    (∃ layered, store.withConsolidated fileName fileCount = .ok layered) ↔
      Profiles.IsAcyclic store.technicalProfiles := by
  rw [← Profiles.all_ends_iff_isAcyclic, withConsolidated]
  split
  · next h => simp [h]
  · next h => simp [h]

/-- The profiles that are found in files stand under their own identifiers. -/
theorem Processing.isKeyed_extracted (documents : List Document) :
    Collection.IsKeyed (extracted documents).technicalProfiles := by
  refine List.foldlRecOn (motive := fun store : Store =>
    Collection.IsKeyed store.technicalProfiles) _ _ Collection.isKeyed_nil ?_
  intro store hstore file _
  exact hstore.recordAll _ _

namespace Profiles

/-- **On which sound stores consolidation comes to an end.**  It does exactly when the
includes of profiles as a whole have no circle, and they have none exactly when every
circle has a profile from which on the check sees what the profiles as a whole include.
They have none, in particular, when no version changes what a lower one includes. -/
theorem consolidation_ends_iff (store : Store)
    (hkeyed : Collection.IsKeyed store.technicalProfiles)
    (hchecked : checkIncludes store.technicalProfiles = .ok ())
    (fileName : String) (fileCount : Int) :
    ((∃ layered, store.withConsolidated fileName fileCount = .ok layered) ↔
      IsAcyclic store.technicalProfiles) ∧
    (IsAcyclic store.technicalProfiles ↔
      ∀ id, TransGen (IncludesInFull store.technicalProfiles) id id →
        ∃ other, TransGen (IncludesInFull store.technicalProfiles) id other ∧
          SeesInFull store.technicalProfiles other) ∧
    (IsSteady store.technicalProfiles → IsAcyclic store.technicalProfiles) := by
  refine ⟨Store.withConsolidated_ok_iff fileName fileCount store, ⟨?_, ?_⟩, ?_⟩
  · intro hacyclic id hcycle
    exact absurd hcycle (hacyclic id)
  · intro hseen id hcycle
    obtain ⟨other, hreached, hsees⟩ := hseen id hcycle
    exact not_seesInFull_of_cycle hkeyed hchecked (cycle_of_reached hcycle hreached) hsees
  · intro hsteady id hcycle
    exact not_seesInFull_of_cycle hkeyed hchecked hcycle (hsteady.seesInFull hkeyed id)

/-! ### Stores at the limits -/

/-- A version of a profile that says nothing but what it includes. -/
def bareVersion (id : String) (depth : Int) (includes : Option String) :
    Version TechnicalProfile where
  id
  source := ⟨"policy.xml", "P", depth⟩
  path := ""
  isOverride := false
  xml := ""
  body :=
    { displayName := none, description := none, protocolName := none, protocolHandler := none,
      providerName := none, claimsProvider := none, metadata := [], inputTransformations := [],
      inputClaims := [], displayClaims := [], persistedClaims := [], outputClaims := [],
      outputTransformations := [], displayControls := [], validationProfiles := [], includes,
      sessionProfile := none }

/-- Profiles of which one is overridden without a word about what it includes. -/
def overridden : Profiles :=
  [("A", [bareVersion "A" 0 (some "B"), bareVersion "A" 1 none]),
    ("B", [bareVersion "B" 0 none])]

theorem consolidation_ends_overridden :
    Collection.IsKeyed overridden ∧ overridden.checkIncludes = .ok () ∧
      (IsAcyclic overridden ↔
        ∀ id, TransGen overridden.IncludesInFull id id →
          ∃ other, TransGen overridden.IncludesInFull id other ∧
            overridden.SeesInFull other) := by
  have hkeyed : Collection.IsKeyed overridden := by
    simp [Collection.IsKeyed, overridden, bareVersion]
  have hchecked : overridden.checkIncludes = .ok () := by cbv
  exact ⟨hkeyed, hchecked,
    (consolidation_ends_iff { technicalProfiles := overridden } hkeyed hchecked
      "ConsolidatedPolicy" 2).2.1⟩

/-- Profiles in a circle of which no walk of the check sees all: `C` gets its include
above `B`, which includes it, and `A` above `C`. -/
def raised : Profiles :=
  [("A", [bareVersion "A" 0 none, bareVersion "A" 2 (some "B")]),
    ("B", [bareVersion "B" 0 (some "C")]),
    ("C", [bareVersion "C" 0 none, bareVersion "C" 1 (some "A")])]

theorem cycle_raised : TransGen raised.IncludesInFull "A" "A" := by
  have hab : raised.IncludesInFull "A" "B" := show raised.fullInclude? "A" = some "B" by cbv
  have hbc : raised.IncludesInFull "B" "C" := show raised.fullInclude? "B" = some "C" by cbv
  have hca : raised.IncludesInFull "C" "A" := show raised.fullInclude? "C" = some "A" by cbv
  exact ((TransGen.single hab).tail hbc).tail hca

/-- **Sound profiles with a circle**, of which consolidation makes nothing. -/
theorem sound_circle :
    ¬ ∀ (store : Store) (fileName : String) (fileCount : Int),
      Collection.IsKeyed store.technicalProfiles →
      checkIncludes store.technicalProfiles = .ok () →
      IsAcyclic store.technicalProfiles ∧
        ∃ layered, store.withConsolidated fileName fileCount = .ok layered := by
  intro h
  have hkeyed : Collection.IsKeyed raised := by
    simp [Collection.IsKeyed, raised, bareVersion]
  have hchecked : raised.checkIncludes = .ok () := by cbv
  exact (h { technicalProfiles := raised } "ConsolidatedPolicy" 3 hkeyed hchecked).1 "A"
    cycle_raised

end Profiles
end TrustFramework
