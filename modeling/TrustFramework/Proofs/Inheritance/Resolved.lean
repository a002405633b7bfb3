import TrustFramework.Proofs.Inheritance.Consolidated

/-!
# What a resolved store holds of a profile

A store is resolved when its includes are sound and come to an end.  Then each profile that a
file defines gains one version behind its others, and this version is what its layers amount to:
the profile as a whole, the profile that it includes, and so on.  What the versions are told of
their ancestors before that changes neither the includes nor what the layers amount to.

## Main definitions

* `Profiles.fullLayers`, `Profiles.whole?` — the layers of a profile, and what they amount to.
* `Profiles.fullyIncluded?` — the profile that a profile as a whole names, be it itself.
* `Store.Gains` — the version that a resolved store has of a profile besides those of files.

## Main results

* `Profiles.fullLayers_eq`, `Profiles.whole?_eq` — layers, one profile at a time.
* `Profiles.exists_original_of_fullyIncluded?` — what sound includes name is there.
* `Profiles.body_amounts?_withAncestors` — ancestors do not change what a profile amounts to.
* `Store.resolve_eq_ok_iff` — **which stores are resolved, and to what.**
* `Store.exists_gains` — **each profile gains what it amounts to.**
-/

namespace TrustFramework

/-! ### Views of versions -/

section Views

variable {α β : Type}

theorem highest?_map {f : Version α → Version β} (hf : ∀ v, (f v).depth = v.depth)
    (versions : List (Version α)) : highest? (versions.map f) = (highest? versions).map f := by
  induction versions with
  | nil => rfl
  | cons v versions ih =>
    rw [List.map_cons, highest?, highest?, ih]
    cases highest? versions with
    | none => rfl
    | some w =>
      simp only [Option.map_some, hf]
      by_cases h : v.depth < w.depth <;> simp [h]

theorem byDepth_map {f : Version α → Version β} (hf : ∀ v, (f v).depth = v.depth)
    (versions : List (Version α)) : byDepth (versions.map f) = (byDepth versions).map f := by
  refine (List.map_mergeSort fun v _ w _ => ?_).symm
  rw [hf, hf]

/-- A view that laying keeps to itself does not change with what it does not see. -/
theorem map_folded?_map [Definition α] {f : Version α → β} (op : β → β → β)
    (hf : ∀ v w : Version α, f (v.layer w) = op (f v) (f w)) {g : Version α → Version α}
    (hdepth : ∀ v, (g v).depth = v.depth) (hg : ∀ v, f (g v) = f v)
    (versions : List (Version α)) :
    (folded? (versions.map g)).map f = (folded? versions).map f := by
  rw [folded?_eq_laid?_byDepth, folded?_eq_laid?_byDepth, byDepth_map hdepth, map_laid? f hf,
    map_laid? f hf, List.map_map]
  exact congrArg (laid? op) (List.map_congr_left fun v _ => hg v)

end Views

namespace Profiles

variable {profiles : Profiles} {id : String}

/-! ### Layers -/

/-- A profile and the profiles it includes one through the other, each as its versions amount
to. -/
def fullLayers (profiles : Profiles) (id : String) : List (Version TechnicalProfile) :=
  profiles.layers (profiles.length + 1) id

/-- What a profile amounts to, but for its ancestors. -/
def whole? (profiles : Profiles) (id : String) : Option (Version TechnicalProfile) :=
  merged? (profiles.fullLayers id)

/-- The profile that a profile as a whole names, be it itself. -/
def fullyIncluded? (profiles : Profiles) (id : String) : Option String :=
  (profiles.own? id).bind includeOf?

theorem fullInclude?_eq (profiles : Profiles) (id : String) :
    profiles.fullInclude? id = (profiles.fullyIncluded? id).filter (· ≠ id) := by
  unfold fullInclude? fullyIncluded?
  cases profiles.own? id <;> rfl

theorem layers_succ (bound : Nat) (id : String) :
    profiles.layers (bound + 1) id = match profiles.own? id with
      | none => []
      | some own => own :: match profiles.fullInclude? id with
        | none => []
        | some included => profiles.layers bound included := by
  rw [layers, fullInclude?]
  cases profiles.own? id <;> rfl

/-- Layers that come to an end within a bound are the same within a greater one. -/
theorem layers_eq_of_endsWithin {bound : Nat} (h : profiles.endsWithin bound id = true) :
    profiles.layers (bound + 1) id = profiles.layers bound id := by
  induction bound generalizing id with
  | zero => cases h
  | succ bound ih =>
    rw [endsWithin_succ] at h
    rw [layers_succ, layers_succ bound]
    cases hinclude : profiles.fullInclude? id with
    | none => rfl
    | some included =>
      rw [hinclude] at h
      simp only [ih h]

theorem ends_of_fullInclude? (h : profiles.ends id = true) {included : String}
    (hinclude : profiles.fullInclude? id = some included) :
    profiles.endsWithin profiles.length included = true := by
  rw [ends, endsWithin_succ, hinclude] at h
  exact h

/-- **The layers of a profile are itself and those of the profile it includes.** -/
theorem fullLayers_eq (h : profiles.ends id = true) :
    profiles.fullLayers id = match profiles.own? id with
      | none => []
      | some own => own :: match profiles.fullInclude? id with
        | none => []
        | some included => profiles.fullLayers included := by
  rw [fullLayers, layers_succ]
  cases hinclude : profiles.fullInclude? id with
  | none => rfl
  | some included =>
    simp only [fullLayers, layers_eq_of_endsWithin (ends_of_fullInclude? h hinclude)]

/-- **What a profile amounts to is its versions, laid onto what the profile it includes amounts
to.** -/
theorem whole?_eq (h : profiles.ends id = true) :
    profiles.whole? id = (profiles.own? id).map fun own =>
      match (profiles.fullInclude? id).bind profiles.whole? with
      | none => own
      | some base => base.layer own := by
  rw [whole?, fullLayers_eq h]
  cases profiles.own? id with
  | none => rfl
  | some own =>
    cases profiles.fullInclude? id with
    | none => rfl
    | some included => rfl

theorem whole?_isSome (h : profiles.ends id = true) (hid : profiles.originals id ≠ []) :
    (profiles.whole? id).isSome := by
  rw [whole?_eq h, Option.isSome_map, own?, Option.isSome_iff_ne_none, ne_eq,
    folded?_eq_none_iff]
  exact hid

/-! ### What includes name -/

/-- The include of versions laid onto each other is named by one of them. -/
theorem exists_of_includeOf?_folded? {versions : List (Version TechnicalProfile)}
    {v : Version TechnicalProfile} (hv : folded? versions = some v) {included : String}
    (h : includeOf? v = some included) : ∃ w ∈ versions, includeOf? w = some included := by
  rw [folded?_eq_laid?_byDepth] at hv
  have hnamed : ∀ name, v.body.includes = some name →
      ∃ w ∈ byDepth versions, w.body.includes = some name := by
    refine laid?_induction (Q := fun _ => True)
      (P := fun versions v => ∀ name, v.body.includes = some name →
        ∃ w ∈ versions, w.body.includes = some name)
      (fun v _ name hname => ⟨v, List.mem_singleton_self v, hname⟩) ?_ (fun _ _ => trivial) hv
    intro versions base derived hbase _ name hname
    have hlayer : (base.layer derived).body.includes =
        (derived.body.includes <|> base.body.includes) := rfl
    cases hderived : derived.body.includes with
    | some other => exact ⟨derived, by simp, by rw [← hname, hlayer, hderived]; rfl⟩
    | none =>
      obtain ⟨w, hw, hincludes⟩ := hbase name (by rw [← hname, hlayer, hderived]; rfl)
      exact ⟨w, List.mem_append_left _ hw, hincludes⟩
  obtain ⟨hincludes, hsolid⟩ := Option.filter_eq_some_iff.mp h
  obtain ⟨w, hw, hname⟩ := hnamed included hincludes
  exact ⟨w, List.mem_mergeSort.mp hw, Option.filter_eq_some_iff.mpr ⟨hname, hsolid⟩⟩

/-- What a profile as a whole names in sound includes has versions in files. -/
theorem exists_original_of_fullyIncluded?
    (hresolved : ∀ v ∈ profiles.values.flatten, profiles.unresolvedFault? v = none)
    {included : String} (h : profiles.fullyIncluded? id = some included) :
    profiles.originals included ≠ [] := by
  obtain ⟨own, hown, hincludes⟩ := Option.bind_eq_some_iff.mp h
  obtain ⟨v, hv, hincludes⟩ := exists_of_includeOf?_folded? hown hincludes
  obtain ⟨w, hw, -⟩ :=
    visible?_isSome_iff.mp (visible?_isSome_of_includeOf? hresolved hv hincludes)
  exact List.ne_nil_of_mem hw

/-! ### Profiles that were told their ancestors -/

theorem depth_told (profiles : Profiles) (v : Version TechnicalProfile) :
    (profiles.told v).depth = v.depth := congrArg Source.depth (source_told profiles v)

theorem originals_withAncestors (id : String) :
    Collection.originals profiles.withAncestors id =
      (Collection.originals profiles id).map profiles.told := by
  unfold Collection.originals
  rw [versions_withAncestors, List.filter_map]
  congr 1
  refine List.filter_congr fun v _ => ?_
  rw [Function.comp_apply, Version.isConsolidated, source_told, Version.isConsolidated]

/-- A view of what versions amount to that does not see ancestors. -/
theorem map_own?_withAncestors {β : Type} {f : Version TechnicalProfile → β} (op : β → β → β)
    (hf : ∀ v w : Version TechnicalProfile, f (v.layer w) = op (f v) (f w))
    (htold : ∀ v, f (profiles.told v) = f v) (id : String) :
    (profiles.withAncestors.own? id).map f = (profiles.own? id).map f := by
  rw [own?, originals_withAncestors]
  exact map_folded?_map op hf (depth_told profiles) htold _

theorem fullyIncluded?_withAncestors (id : String) :
    profiles.withAncestors.fullyIncluded? id = profiles.fullyIncluded? id := by
  have hview (profiles : Profiles) : profiles.fullyIncluded? id =
      ((profiles.own? id).map fun v => v.body.includes).bind
        fun included => included.filter fun name => !name.isEmpty := by
    rw [fullyIncluded?, Option.bind_map]
    rfl
  have htold (v : Version TechnicalProfile) :
      (profiles.told v).body.includes = v.body.includes := by
    unfold told
    split <;> rfl
  rw [hview, hview,
    map_own?_withAncestors (fun base derived => derived <|> base) (fun _ _ => rfl) htold]

theorem fullInclude?_withAncestors (id : String) :
    profiles.withAncestors.fullInclude? id = profiles.fullInclude? id := by
  rw [fullInclude?_eq, fullInclude?_eq, fullyIncluded?_withAncestors]

theorem length_withAncestors : List.length profiles.withAncestors = List.length profiles :=
  List.length_map _

theorem endsWithin_withAncestors (bound : Nat) (id : String) :
    profiles.withAncestors.endsWithin bound id = profiles.endsWithin bound id := by
  induction bound generalizing id with
  | zero => rfl
  | succ bound ih =>
    rw [endsWithin_succ, endsWithin_succ, fullInclude?_withAncestors]
    cases profiles.fullInclude? id with
    | none => rfl
    | some included => exact ih included

theorem ends_withAncestors (id : String) :
    profiles.withAncestors.ends id = profiles.ends id := by
  rw [ends, ends, endsWithin_withAncestors, length_withAncestors]

/-- A version is known by its identifier and its definition but for the ancestors. -/
def known (v : Version TechnicalProfile) : String × TechnicalProfile := (v.id, v.body.bare)

theorem known_told (profiles : Profiles) (v : Version TechnicalProfile) :
    known (profiles.told v) = known v := by
  unfold told
  split <;> rfl

/-- What is known of a version on top of another one. -/
def layerKnown (base derived : String × TechnicalProfile) : String × TechnicalProfile :=
  (derived.1, Definition.layer base.2 derived.2)

theorem known_layer (v w : Version TechnicalProfile) :
    known (v.layer w) = layerKnown (known v) (known w) := rfl

/-- The layers of profiles that were told their ancestors are the same but for these. -/
theorem map_fullLayers_withAncestors (id : String) :
    (profiles.withAncestors.fullLayers id).map known = (profiles.fullLayers id).map known := by
  unfold fullLayers
  rw [length_withAncestors]
  induction profiles.length + 1 generalizing id with
  | zero => rfl
  | succ bound ih =>
    have hown := map_own?_withAncestors layerKnown known_layer (known_told profiles) id
    rw [layers_succ, layers_succ, fullInclude?_withAncestors]
    cases h : profiles.own? id with
    | none =>
      rw [h, Option.map_none, Option.map_eq_none_iff] at hown
      rw [hown]
    | some own =>
      rw [h, Option.map_some] at hown
      obtain ⟨own', hown', heq⟩ := Option.map_eq_some_iff.mp hown
      rw [hown']
      cases profiles.fullInclude? id with
      | none => simp [heq]
      | some included => simp [heq, ih included]

theorem map_merged? {layers others : List (Version TechnicalProfile)}
    (h : layers.map known = others.map known) :
    (merged? layers).map known = (merged? others).map known := by
  induction layers generalizing others with
  | nil =>
    rw [List.map_eq_nil_iff.mp h.symm]
  | cons own layers ih =>
    obtain _ | ⟨own', others⟩ := others
    · cases h
    rw [List.map_cons, List.map_cons, List.cons.injEq] at h
    have ih := ih h.2
    rw [merged?, merged?]
    cases hlayers : merged? layers <;> cases hothers : merged? others <;>
      simp_all [known_layer]

theorem map_whole?_withAncestors (profiles : Profiles) (id : String) :
    (profiles.withAncestors.whole? id).map known = (profiles.whole? id).map known :=
  map_merged? (map_fullLayers_withAncestors id)

theorem ancestors_told (profiles : Profiles) {v : Version TechnicalProfile}
    (h : v ∈ profiles.originals id) :
    (profiles.told v).body.ancestors = profiles.ancestorsOf v := by
  rw [told, not_isConsolidated_of_mem_originals h, if_neg Bool.false_ne_true]

/-- **Once profiles were told their ancestors, each amounts to what it amounted to before**, with
the ancestors of its highest version. -/
theorem body_amounts?_withAncestors (profiles : Profiles) {latest whole : Version TechnicalProfile}
    (hlatest : highest? (profiles.originals id) = some latest)
    (hwhole : profiles.whole? id = some whole) :
    (profiles.withAncestors.amounts? id).map Version.body =
      some { whole.body with ancestors := profiles.ancestorsOf latest } := by
  have hancestors : ((highest? (Collection.originals profiles.withAncestors id)).map
      fun v => v.body.ancestors).getD [] = profiles.ancestorsOf latest := by
    rw [originals_withAncestors, highest?_map (depth_told profiles), hlatest, Option.map_some,
      Option.map_some, Option.getD_some, ancestors_told profiles (mem_of_highest? hlatest)]
  have hknown := profiles.map_whole?_withAncestors id
  rw [hwhole, Option.map_some] at hknown
  obtain ⟨whole', hwhole', heq⟩ := Option.map_eq_some_iff.mp hknown
  have hmerged : merged? (profiles.withAncestors.layers (profiles.withAncestors.length + 1) id) =
      some whole' := hwhole'
  have hbare : whole'.body.bare = whole.body.bare := congrArg Prod.snd heq
  rw [amounts?, hancestors, hmerged, Option.map_some, Option.map_some]
  exact congrArg (fun p : TechnicalProfile =>
    some { p with ancestors := profiles.ancestorsOf latest }) hbare

/-- A store of nothing but profiles. -/
def toStore (profiles : Profiles) : Store := { technicalProfiles := profiles }

end Profiles

/-! ### Resolved stores -/

namespace Store

variable {store resolved : Store} {fileName : String} {fileCount : Int} {id : String}

theorem technicalProfiles_withAncestors (store : Store) :
    store.withAncestors.technicalProfiles = Profiles.withAncestors store.technicalProfiles := rfl

theorem names_withAncestors (store : Store) :
    Fields.names store.withAncestors.technicalProfiles = Fields.names store.technicalProfiles :=
  List.map_map

/-- **Which stores are resolved, and to what**: those whose includes are sound and come to an
end. -/
theorem resolve_eq_ok_iff :
    store.resolve fileName fileCount = .ok resolved ↔
      Profiles.checkIncludes store.technicalProfiles = .ok () ∧
        (∀ id ∈ Fields.names store.technicalProfiles,
          Profiles.ends store.technicalProfiles id = true) ∧
        store.withAncestors.layered fileName fileCount = resolved := by
  have hall : ((Fields.names store.withAncestors.technicalProfiles).all
      (Profiles.ends store.withAncestors.technicalProfiles) = true) ↔
      ∀ id ∈ Fields.names store.technicalProfiles,
        Profiles.ends store.technicalProfiles id = true := by
    rw [List.all_eq_true, names_withAncestors]
    exact forall₂_congr fun id _ => by
      rw [technicalProfiles_withAncestors, Profiles.ends_withAncestors]
  rw [← hall, resolve, checked]
  cases hcheck : Profiles.checkIncludes store.technicalProfiles with
  | error fault => simp [bind, Except.bind]
  | ok done =>
    change store.withAncestors.withConsolidated fileName fileCount = .ok resolved ↔ _
    rw [withConsolidated]
    split
    · next h => simp [h]
    · next h => simp [h]

theorem resolve_toStore {profiles : Profiles} (fileName : String) (fileCount : Int)
    (hcheck : profiles.checkIncludes = .ok ())
    (hends : profiles.names.all profiles.ends = true) :
    profiles.toStore.resolve fileName fileCount =
      .ok (profiles.toStore.withAncestors.layered fileName fileCount) :=
  resolve_eq_ok_iff.mpr ⟨hcheck, List.all_eq_true.mp hends, rfl⟩

/-- Behind the versions that files define, a resolved store has one of a profile that stands for
all of them. -/
structure Gains (store resolved : Store) (fileName : String) (fileCount : Int) (id : String)
    (v : Version TechnicalProfile) : Prop where
  versions_eq : Collection.versions resolved.technicalProfiles id =
    Collection.versions store.withAncestors.technicalProfiles id ++ [v]
  source_eq : v.source = consolidatedSource fileName fileCount

/-- **Each profile that a file defines gains what it amounts to**, with the ancestors of its
highest version. -/
theorem exists_gains (hresolve : store.resolve fileName fileCount = .ok resolved)
    (hid : Collection.originals store.technicalProfiles id ≠ []) :
    ∃ v latest whole, store.Gains resolved fileName fileCount id v ∧
      highest? (Collection.originals store.technicalProfiles id) = some latest ∧
      Profiles.whole? store.technicalProfiles id = some whole ∧
      v.body = { whole.body with
        ancestors := Profiles.ancestorsOf store.technicalProfiles latest } := by
  obtain ⟨-, hends, rfl⟩ := resolve_eq_ok_iff.mp hresolve
  have hname : id ∈ Fields.names store.technicalProfiles := by
    obtain ⟨v, hv⟩ := List.exists_mem_of_ne_nil _ hid
    exact Collection.mem_names_of_mem_versions (Collection.mem_versions_of_mem_originals hv)
  obtain ⟨latest, hlatest⟩ := Option.isSome_iff_exists.mp (highest?_isSome_iff.mpr hid)
  obtain ⟨whole, hwhole⟩ :=
    Option.isSome_iff_exists.mp (Profiles.whole?_isSome (hends id hname) hid)
  obtain ⟨merged, hmerged, hbody⟩ := Option.map_eq_some_iff.mp
    (Profiles.body_amounts?_withAncestors store.technicalProfiles hlatest hwhole)
  have hname' : id ∈ Fields.names store.withAncestors.technicalProfiles := by
    rw [names_withAncestors]
    exact hname
  exact ⟨_, latest, whole, ⟨Collection.versions_withConsolidated hname' hmerged, rfl⟩, hlatest,
    hwhole, hbody⟩

end Store
end TrustFramework
