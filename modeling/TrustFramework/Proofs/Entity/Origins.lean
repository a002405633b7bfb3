import TrustFramework.Proofs.Inheritance.Resolved

/-!
# Where versions come from

What a version is apart from its definition is fixed when the definition is found: the file, the
policy and the depth, and whether another file has the same thing already.  What comes after that
changes definitions alone, until one more version is put behind those that files have.

Which versions are those of files is told by the names of their policies; so a thing gains no
version if all of its versions are named like the one that it would gain.

## Main definitions

* `Version.origin`, `Collection.origins` — versions but for their definitions.
* `StandsElsewhere` — a version stands in another file than a given one.
* `IsConsolidation` — versions as they were, with one more behind them or without.
* `Collection.IsSettled` — the versions of files from the most basic one on, and behind them the
  one that counts.

## Main results

* `Collection.origins_recordAll` — what is found in a file gives versions that know whether
  another file has the thing.
* `Collection.isConsolidation_withConsolidated` — a collection gains one version of each thing.
* `IsConsolidation.isSettled_iff` — **when the versions of a thing are settled.**
-/

namespace TrustFramework

variable {α : Type}

/-! ### Origins -/

/-- A version but for its definition. -/
def Version.origin (v : Version α) : Version Unit := v.map fun _ => ()

namespace Version

@[simp] theorem source_origin (v : Version α) : v.origin.source = v.source := rfl

@[simp] theorem depth_origin (v : Version α) : v.origin.depth = v.depth := rfl

@[simp] theorem isOverride_origin (v : Version α) : v.origin.isOverride = v.isOverride := rfl

@[simp] theorem isConsolidated_origin (v : Version α) :
    v.origin.isConsolidated = v.isConsolidated := rfl

end Version

/-- A version stands in another file than the given one. The version that all versions amount to
stands in none. -/
def StandsElsewhere (fileName : String) (versions : List (Version α)) : Prop :=
  ∃ v ∈ versions, v.isConsolidated = false ∧ v.source.fileName ≠ fileName

namespace Collection

/-- The versions of a thing but for their definitions. -/
def origins (c : Collection α) (id : String) : List (Version Unit) :=
  (c.versions id).map Version.origin

/-- Every name has a version. -/
def IsInhabited (c : Collection α) : Prop := ∀ id ∈ c.names, c.origins id ≠ []

theorem originals_eq_nil_iff {c : Collection α} {id : String} :
    c.originals id = [] ↔ ∀ v ∈ c.origins id, v.isConsolidated = true := by
  simp [originals, origins, List.filter_eq_nil_iff]

theorem names_reported [Definition α] (c : Collection α) :
    (Store.reported c).names = c.names := List.map_map

/-- Reporting changes definitions alone. -/
theorem origins_reported [Definition α] (c : Collection α) (id : String) :
    (Store.reported c).origins id = c.origins id := by
  rw [origins, versions, Store.reported, Fields.mapValues, Fields.get?_map, origins, versions]
  cases c.get? id with
  | none => rfl
  | some versions => exact List.map_map

/-! ### What is found in a file -/

theorem isInhabited_nil : IsInhabited ([] : Collection α) := by
  intro id hid
  cases hid

theorem mem_names_add {c : Collection α} {v : Version α} {id : String}
    (h : id ∈ (c.add v).names) : id ∈ c.names ∨ id = v.id := by
  obtain ⟨entry, hentry, rfl⟩ := List.mem_map.mp h
  rcases Fields.mem_set hentry with hentry | rfl
  · exact Or.inl (List.mem_map_of_mem hentry)
  · exact Or.inr rfl

theorem origins_add (c : Collection α) (v : Version α) (id : String) :
    (c.add v).origins id = c.origins id ++ if v.id = id then [v.origin] else [] := by
  rw [origins, versions_add, List.map_append, apply_ite (List.map _)]
  rfl

variable [Definition α]

/-- What is found in a file gives a version that knows whether another file has the thing. -/
theorem origins_record (c : Collection α) (source : Source) (f : Found α) (id : String) :
    ∃ v : Version Unit, v.source = source ∧
      (v.isOverride = true ↔ StandsElsewhere source.fileName (c.origins f.id)) ∧
      (c.record source f).origins id = c.origins id ++ if f.id = id then [v] else [] := by
  refine ⟨_, rfl, ?_, origins_add c _ id⟩
  simp [StandsElsewhere, origins, originals]

/-- **What is found in a file gives versions behind those that are there**, of each thing that is
found, and each knows whether another file has the thing already. -/
theorem origins_recordAll (c : Collection α) (source : Source) (found : List (Found α))
    (id : String) :
    ∃ news, (c.recordAll source found).origins id = c.origins id ++ news ∧
      (news ≠ [] ↔ id ∈ found.map Found.id) ∧
      ∀ v ∈ news, v.source = source ∧
        (v.isOverride = true ↔ StandsElsewhere source.fileName (c.origins id)) := by
  rw [recordAll]
  induction found generalizing c with
  | nil => exact ⟨[], by simp⟩
  | cons f found ih =>
    obtain ⟨v, hsource, hoverride, hrecord⟩ := c.origins_record source f id
    obtain ⟨news, horigins, hfound, hnews⟩ := ih (c.record source f)
    by_cases hf : f.id = id
    · subst hf
      rw [if_pos rfl] at hrecord
      -- the version that was put there stands in the same file
      have hsame : StandsElsewhere source.fileName ((c.record source f).origins f.id) ↔
          StandsElsewhere source.fileName (c.origins f.id) := by
        simp [StandsElsewhere, hrecord, hsource]
      refine ⟨v :: news, by simp [horigins, hrecord], by simp, ?_⟩
      refine List.forall_mem_cons.mpr ⟨⟨hsource, hoverride⟩, fun w hw => ?_⟩
      rw [← hsame]
      exact hnews w hw
    · rw [if_neg hf, List.append_nil] at hrecord
      rw [hrecord] at horigins hnews
      refine ⟨news, horigins, ?_, hnews⟩
      rw [hfound, List.map_cons, List.mem_cons]
      exact ⟨Or.inr, fun h => h.resolve_left (Ne.symm hf)⟩

theorem IsInhabited.recordAll {c : Collection α} (h : c.IsInhabited) (source : Source)
    (found : List (Found α)) : (c.recordAll source found).IsInhabited := by
  rw [Collection.recordAll]
  induction found generalizing c with
  | nil => exact h
  | cons f found ih =>
    refine ih fun id hid => ?_
    obtain ⟨v, -, -, hrecord⟩ := c.origins_record source f id
    rw [hrecord]
    rcases mem_names_add hid with hid | rfl
    · exact List.append_ne_nil_of_left_ne_nil (h id hid) _
    · simp

end Collection

/-! ### One more version -/

/-- Versions as they were if none of them stands in a file, and else with one more behind them. -/
inductive IsConsolidation (source : Source) (origins : List (Version Unit)) :
    List (Version Unit) → Prop
  | unchanged (none : ∀ v ∈ origins, v.isConsolidated = true) :
      IsConsolidation source origins origins
  | gains {v : Version Unit} (some : ∃ w ∈ origins, w.isConsolidated = false)
      (source_eq : v.source = source) : IsConsolidation source origins (origins ++ [v])

section Members

variable {source : Source} {origins result : List (Version Unit)} {v : Version Unit}

theorem IsConsolidation.mem (h : IsConsolidation source origins result) (hv : v ∈ origins) :
    v ∈ result := by
  cases h with
  | unchanged => exact hv
  | gains => exact List.mem_append_left _ hv

theorem IsConsolidation.mem_or_source_eq (h : IsConsolidation source origins result)
    (hv : v ∈ result) : v ∈ origins ∨ v.source = source := by
  cases h with
  | unchanged => exact Or.inl hv
  | gains _ hsource =>
    rcases List.mem_append.mp hv with hv | hv
    · exact Or.inl hv
    · exact Or.inr (by rw [List.mem_singleton.mp hv, hsource])

end Members

namespace Collection

variable {c : Collection α} {source : Source} {merge? : String → Option (Version α)} {id : String}

theorem names_withConsolidated : (c.withConsolidated source merge?).names = c.names :=
  List.map_map

theorem versions_withConsolidated_of_none (h : merge? id = none) :
    (c.withConsolidated source merge?).versions id = c.versions id := by
  rw [versions, withConsolidated, Fields.get?_map, versions]
  cases c.get? id with
  | none => rfl
  | some versions => simp [h]

/-- **A collection gains one version of each thing that stands in a file.** -/
theorem isConsolidation_withConsolidated (source : Source)
    (h : merge? id = none ↔ c.originals id = []) :
    IsConsolidation source (c.origins id) ((c.withConsolidated source merge?).origins id) := by
  cases hmerge : merge? id with
  | none =>
    have horigins : (c.withConsolidated source merge?).origins id = c.origins id := by
      rw [origins, versions_withConsolidated_of_none hmerge, origins]
    rw [horigins]
    exact .unchanged (originals_eq_nil_iff.mp (h.mp hmerge))
  | some merged =>
    have hne : c.originals id ≠ [] := fun hnil => by simp [h.mpr hnil] at hmerge
    obtain ⟨w, hw⟩ := List.exists_mem_of_ne_nil _ hne
    have hid : id ∈ c.names := mem_names_of_mem_versions (mem_versions_of_mem_originals hw)
    have hsome : ∃ w ∈ c.origins id, w.isConsolidated = false := by
      simpa [originals_eq_nil_iff] using hne
    have horigins : (c.withConsolidated source merge?).origins id =
        c.origins id ++ [(asConsolidated source (c.versions id) merged).origin] := by
      rw [origins, versions_withConsolidated hid hmerge, List.map_append, origins]
      rfl
    rw [horigins]
    exact .gains hsome rfl

end Collection

namespace Profiles

/-- A profile amounts to something if a file has it. -/
theorem amounts?_eq_none_iff {profiles : Profiles} {id : String} :
    profiles.amounts? id = none ↔ Collection.originals profiles id = [] := by
  rw [amounts?, Option.map_eq_none_iff, layers, own?]
  cases hown : folded? (Collection.originals profiles id) with
  | none => exact ⟨fun _ => folded?_eq_none_iff.mp hown, fun _ => rfl⟩
  | some own =>
    have hne : Collection.originals profiles id ≠ [] := fun hnil => by
      rw [folded?_eq_none_iff.mpr hnil] at hown
      cases hown
    simp [merged?, hne]

theorem origins_withAncestors (profiles : Profiles) (id : String) :
    Collection.origins profiles.withAncestors id = Collection.origins profiles id := by
  rw [Collection.origins, versions_withAncestors, List.map_map]
  refine List.map_congr_left fun v _ => ?_
  rw [Function.comp_apply, told]
  split <;> rfl

end Profiles

/-! ### Settled versions -/

/-- The versions of a thing are those of files, from the most basic one on, and behind them one
of the given source, which is the one that counts. -/
def Collection.IsSettled (source : Source) (c : Collection α) (id : String) : Prop :=
  ∃ extracted consolidated, c.versions id = extracted ++ [consolidated] ∧ extracted ≠ [] ∧
    (∀ v ∈ extracted, v.isConsolidated = false) ∧
    extracted.Pairwise (fun v w => v.depth ≤ w.depth) ∧
    consolidated.source = source ∧ consolidated.isConsolidated = true ∧
    c.effective? id = some consolidated

/-- **Versions are settled if the names of their policies tell them from the one that counts.** -/
theorem IsConsolidation.isSettled_iff {source : Source} {c : Collection α} {id : String}
    {origins : List (Version Unit)} (h : IsConsolidation source origins (c.origins id))
    (hsource : source.policyId = consolidatedPolicyId) (hne : origins ≠ [])
    (hsorted : origins.Pairwise fun v w => v.depth ≤ w.depth) :
    c.IsSettled source id ↔ ∀ v ∈ origins, v.isConsolidated = false := by
  constructor
  · rintro ⟨extracted, consolidated, hversions, hsome, hextracted, -⟩
    have horigins : c.origins id = extracted.map Version.origin ++ [consolidated.origin] := by
      rw [Collection.origins, hversions, List.map_append, List.map_singleton]
    generalize hresult : c.origins id = result at h horigins
    cases h with
    | unchanged hnone =>
      obtain ⟨v, hv⟩ := List.exists_mem_of_ne_nil _ hsome
      have hv' : v.origin ∈ origins := by simp [horigins, List.mem_map_of_mem hv]
      have hconsolidated := hnone _ hv'
      rw [Version.isConsolidated_origin, hextracted v hv] at hconsolidated
      cases hconsolidated
    | gains =>
      obtain rfl := (List.append_inj_left' horigins rfl)
      simpa using hextracted
  · intro hextracted
    generalize hresult : c.origins id = result at h
    cases h with
    | unchanged hnone =>
      obtain ⟨v, hv⟩ := List.exists_mem_of_ne_nil _ hne
      have hconsolidated := hextracted v hv
      rw [hnone v hv] at hconsolidated
      cases hconsolidated
    | @gains v _ hv =>
      obtain ⟨extracted, rest, hversions, rfl, hrest⟩ := List.map_eq_append_iff.mp hresult
      obtain ⟨consolidated, rfl, rfl⟩ := List.map_eq_singleton_iff.mp hrest
      rw [Version.source_origin] at hv
      have hconsolidated : consolidated.isConsolidated = true := by
        simp [Version.isConsolidated, hv, hsource]
      have hextracted' : ∀ w ∈ extracted, w.isConsolidated = false := by simpa using hextracted
      have hfind : extracted.find? Version.isConsolidated = none :=
        List.find?_eq_none.mpr fun w hw => by simp [hextracted' w hw]
      refine ⟨extracted, consolidated, hversions, by simpa using hne, hextracted',
        by simpa [List.pairwise_map] using hsorted, hv, hconsolidated, ?_⟩
      rw [Collection.effective?, hversions, List.find?_append, hfind]
      simp [hconsolidated]

end TrustFramework
