import TrustFramework.Proofs.Inheritance.Cycles
import TrustFramework.Proofs.Policy.Layering
import TrustFramework.Proofs.Sorting

/-!
# What documents amount to

The definitions of documents that are given base first have their versions in the order of the
documents, each deeper than those before it; so consolidation lays them onto each other in this
order.  Where no profile includes another one, nothing keeps a store from being consolidated,
and the version of a thing that counts is what its definitions amount to.

## Main definitions

* `Collection.All` — a property of all versions of a collection.
* `IsExtracted` — what a part of a store holds of each document.

## Main results

* `IsExtracted.versions_spec` — the versions of a thing, in the order of the documents.
* `IsExtracted.effective?_consolidated` — **the version that counts is what the definitions
  amount to, laid onto each other.**
* `Store.resolve_eq_ok` — **a store without includes is resolved.**
* `Profiles.effective?_withAncestors` — what a profile rests on does not change what it amounts
  to.
-/

namespace TrustFramework

open Relation

variable {α : Type} [Definition α]

/-- What stands under a name once every entry was changed. -/
theorem Fields.get?_map {α β : Type} (f : String × α → β) (fields : Fields α) (name : String) :
    Fields.get? (fields.map fun entry => (entry.1, f entry)) name =
      (fields.get? name).map fun v => f (name, v) := by
  induction fields with
  | nil => rfl
  | cons entry fields ih =>
    obtain ⟨n, v⟩ := entry
    by_cases hn : n = name
    · subst hn
      simp [Fields.get?]
    · simpa [Fields.get?, hn] using ih

/-! ### Versions in the order of the documents -/

namespace Collection

/-- A property of all versions. -/
def All (P : Version α → Prop) (c : Collection α) : Prop := ∀ entry ∈ c, ∀ v ∈ entry.2, P v

omit [Definition α] in
theorem All.of_mem_versions {P : Version α → Prop} {c : Collection α} (hc : c.All P) {id : String}
    {v : Version α} (h : v ∈ c.versions id) : P v := by
  unfold versions at h
  cases hget : c.get? id with
  | none => simp [hget] at h
  | some versions =>
    rw [hget, Option.getD_some] at h
    exact hc _ (Fields.mem_of_get? hget) v h

omit [Definition α] in
theorem All.add {P : Version α → Prop} {c : Collection α} (hc : c.All P) {v : Version α}
    (hv : P v) : (c.add v).All P := by
  intro entry hentry w hw
  rcases Fields.mem_set hentry with h | rfl
  · exact hc entry h w hw
  · rcases List.mem_append.mp hw with h | h
    · exact hc.of_mem_versions h
    · exact List.mem_singleton.mp h ▸ hv

theorem All.recordAll {P : Version α → Prop} {c : Collection α} (hc : c.All P) {source : Source}
    {found : List (Found α)}
    (hfound : ∀ f ∈ found, ∀ v : Version α, v.source = source → v.body = f.body → P v) :
    (c.recordAll source found).All P := by
  rw [Collection.recordAll]
  induction found generalizing c with
  | nil => exact hc
  | cons f found ih =>
    rw [List.forall_mem_cons] at hfound
    exact ih (hc.add (hfound.1 _ rfl rfl)) hfound.2

omit [Definition α] in
theorem versions_add (c : Collection α) (v : Version α) (id : String) :
    (c.add v).versions id = c.versions id ++ if v.id = id then [v] else [] := by
  unfold versions add
  by_cases h : v.id = id
  · subst h
    simp [versions]
  · simp [h, Fields.get?_set_of_ne _ _ (Ne.symm h)]

theorem versions_record (c : Collection α) (source : Source) (f : Found α) (id : String) :
    ∃ v : Version α, v.source = source ∧ v.body = f.body ∧
      (c.record source f).versions id = c.versions id ++ if f.id = id then [v] else [] :=
  ⟨_, rfl, rfl, versions_add c _ id⟩

/-- What is found in a file makes new versions behind those that are there. -/
theorem versions_recordAll (c : Collection α) (source : Source) (found : List (Found α))
    (id : String) :
    ∃ news, (c.recordAll source found).versions id = c.versions id ++ news ∧
      news.map Version.body = (found.filter fun f => f.id == id).map Found.body ∧
      ∀ v ∈ news, v.source = source := by
  rw [Collection.recordAll]
  induction found generalizing c with
  | nil => exact ⟨[], by simp⟩
  | cons f found ih =>
    obtain ⟨v, hsource, hbody, hrecord⟩ := c.versions_record source f id
    obtain ⟨news, hversions, hbodies, hnews⟩ := ih (c.record source f)
    by_cases hf : f.id = id
    · rw [if_pos hf] at hrecord
      refine ⟨v :: news, by simp [hversions, hrecord], by simp [hf, hbody, hbodies], ?_⟩
      exact List.forall_mem_cons.mpr ⟨hsource, hnews⟩
    · rw [if_neg hf, List.append_nil] at hrecord
      exact ⟨news, by rw [List.foldl_cons, hversions, hrecord], by simp [hf, hbodies], hnews⟩

end Collection

/-- A part of a store that has, of each document, what is found in its tree. -/
structure IsExtracted (part : Store → Collection α) (find : Value → List (Found α)) : Prop where
  empty : part {} = []
  extract : ∀ (store : Store) (source : Source) (tree : Value),
    part (store.extract source tree) =
      (part store).recordAll source (find (tree.get Policy.rootName))

theorem isExtracted_userJourneys : IsExtracted Store.userJourneys userJourneysIn :=
  ⟨rfl, fun _ _ _ => rfl⟩

theorem isExtracted_subJourneys : IsExtracted Store.subJourneys subJourneysIn :=
  ⟨rfl, fun _ _ _ => rfl⟩

theorem isExtracted_technicalProfiles : IsExtracted Store.technicalProfiles technicalProfilesIn :=
  ⟨rfl, fun _ _ _ => rfl⟩

theorem Processing.extracted_append_singleton (documents : List Document) (d : Document) :
    extracted (documents ++ [d]) =
      (extracted documents).extract ⟨d.fileName, d.policyId, documents.length⟩ d.tree := by
  simp [extracted, List.zipIdx_append]

namespace IsExtracted

open Processing

variable {part : Store → Collection α} {find : Value → List (Found α)}

theorem all_extracted (h : IsExtracted part find) {P : Version α → Prop}
    {documents : List Document}
    (hfound : ∀ d ∈ documents, ∀ f ∈ find (d.tree.get Policy.rootName), ∀ v : Version α,
      v.source.policyId = d.policyId → v.body = f.body → P v) :
    (part (extracted documents)).All P := by
  induction documents using List.reverseRecOn with
  | nil =>
    rw [show part (extracted []) = [] from h.empty]
    intro entry hentry
    cases hentry
  | append_singleton documents d ih =>
    rw [List.forall_mem_append] at hfound
    rw [extracted_append_singleton, h.extract]
    refine (ih hfound.1).recordAll fun f hf v hsource hbody => ?_
    exact hfound.2 d (List.mem_singleton_self d) f hf v (by rw [hsource]) hbody

/-- No version is the consolidated one yet, if no document is named like it. -/
theorem all_isConsolidated_eq_false (h : IsExtracted part find) {documents : List Document}
    (hpolicy : ∀ d ∈ documents, d.policyId ≠ consolidatedPolicyId) :
    (part (extracted documents)).All fun v => v.isConsolidated = false :=
  h.all_extracted fun d hd f _ v hsource _ => by
    simpa [Version.isConsolidated, hsource] using hpolicy d hd

/-- **The versions of a thing are its definitions in the order of the documents**, each as deep
as those before it at least. -/
theorem versions_spec (h : IsExtracted part find) (documents : List Document) (id : String) :
    ((part (extracted documents)).versions id).map Version.body =
        (documents.flatMap fun d =>
          (find (d.tree.get Policy.rootName)).filter fun f => f.id == id).map Found.body ∧
      (∀ v ∈ (part (extracted documents)).versions id, v.depth < documents.length) ∧
      ((part (extracted documents)).versions id).Pairwise fun v w => v.depth ≤ w.depth := by
  induction documents using List.reverseRecOn with
  | nil =>
    rw [show part (extracted []) = [] from h.empty]
    exact ⟨rfl, by simp [Collection.versions], List.Pairwise.nil⟩
  | append_singleton documents d ih =>
    obtain ⟨hbodies, hdepths, hsorted⟩ := ih
    obtain ⟨news, hversions, hnews, hsource⟩ := (part (extracted documents)).versions_recordAll
      ⟨d.fileName, d.policyId, documents.length⟩ (find (d.tree.get Policy.rootName)) id
    have hdepth : ∀ v ∈ news, v.depth = documents.length := fun v hv => by
      rw [Version.depth, hsource v hv]
    rw [extracted_append_singleton, h.extract, hversions]
    refine ⟨?_, ?_, ?_⟩
    · rw [List.map_append, hbodies, hnews, List.flatMap_append, List.map_append,
        List.flatMap_singleton]
    -- the last document is deeper than all before it
    · intro v hv
      rw [List.length_append, List.length_singleton]
      rcases List.mem_append.mp hv with hv | hv
      · have := hdepths v hv
        omega
      · rw [hdepth v hv]
        omega
    · refine List.pairwise_append.mpr ⟨hsorted, ?_, fun v hv w hw => ?_⟩
      · exact List.pairwise_of_forall_mem_list fun v hv w hw => by rw [hdepth v hv, hdepth w hw]
      · have := hdepths v hv
        rw [hdepth w hw]
        omega

end IsExtracted

/-! ### Consolidation -/

theorem folded?_eq_laid?_byDepth (versions : List (Version α)) :
    folded? versions = laid? Version.layer (byDepth versions) := by
  rw [folded?]
  cases byDepth versions <;> rfl

theorem folded?_eq_laid? {versions : List (Version α)}
    (h : versions.Pairwise fun v w => v.depth ≤ w.depth) :
    folded? versions = laid? Version.layer versions := by
  have hsorted : byDepth versions = versions := mergeSort_eq_self Version.depth h
  rw [folded?_eq_laid?_byDepth, hsorted]

/-- What versions amount to is what their definitions amount to. -/
theorem body_laid? {versions : List (Version α)} :
    (laid? Version.layer versions).map Version.body =
      laid? Definition.layer (versions.map Version.body) :=
  map_laid? Version.body (fun _ _ => rfl) versions

namespace Collection

omit [Definition α] in
theorem originals_eq_versions {c : Collection α}
    (hc : c.All fun v => v.isConsolidated = false) (id : String) :
    c.originals id = c.versions id :=
  List.filter_eq_self.mpr fun v hv => by simp [hc.of_mem_versions hv]

omit [Definition α] in
/-- The consolidated version is put behind the others. -/
theorem versions_withConsolidated {c : Collection α} {source : Source}
    {merge? : String → Option (Version α)} {id : String} {merged : Version α} (hid : id ∈ c.names)
    (hmerge : merge? id = some merged) :
    (c.withConsolidated source merge?).versions id =
      c.versions id ++ [asConsolidated source (c.versions id) merged] := by
  cases hcget : c.get? id with
  | none => exact absurd hid (Fields.get?_eq_none_iff.mp hcget)
  | some versions =>
    rw [Collection.versions, withConsolidated, Fields.get?_map, hcget, Collection.versions, hcget]
    simp [hmerge]

omit [Definition α] in
/-- The version that counts is the one that was put behind the others. -/
theorem effective?_withConsolidated {c : Collection α}
    (hc : c.All fun v => v.isConsolidated = false) {source : Source}
    (hsource : source.policyId = consolidatedPolicyId) {merge? : String → Option (Version α)}
    {id : String} {merged : Version α} (hid : id ∈ c.names) (hmerge : merge? id = some merged) :
    (c.withConsolidated source merge?).effective? id =
      some (asConsolidated source (c.versions id) merged) := by
  have hnone : (c.versions id).find? Version.isConsolidated = none :=
    List.find?_eq_none.mpr fun v hv => by simp [hc.of_mem_versions hv]
  have hself : (asConsolidated source (c.versions id) merged).isConsolidated = true := by
    simp [asConsolidated, Version.isConsolidated, hsource]
  rw [effective?, versions_withConsolidated hid hmerge, List.find?_append, hnone]
  simp [hself]

end Collection

open Processing in
/-- **The version that counts is what the definitions amount to**, in the order of the
documents. -/
theorem IsExtracted.effective?_consolidated {part : Store → Collection α}
    {find : Value → List (Found α)} (h : IsExtracted part find) {documents : List Document}
    (hpolicy : ∀ d ∈ documents, d.policyId ≠ consolidatedPolicyId) (source : Source)
    (hsource : source.policyId = consolidatedPolicyId) {id : String} {merged : α}
    (hmerged : laid? Definition.layer ((documents.flatMap fun d =>
      (find (d.tree.get Policy.rootName)).filter fun f => f.id == id).map Found.body) =
        some merged) :
    ∃ v, ((part (extracted documents)).consolidated source).effective? id = some v ∧
      v.isConsolidated = true ∧ v.body = merged := by
  have hnone := h.all_isConsolidated_eq_false hpolicy
  obtain ⟨hbodies, -, hsorted⟩ := h.versions_spec documents id
  have hfolded : (folded? ((part (extracted documents)).originals id)).map Version.body =
      some merged := by
    rw [Collection.originals_eq_versions hnone, folded?_eq_laid? hsorted, body_laid?, hbodies,
      hmerged]
  obtain ⟨v, hv, rfl⟩ := Option.map_eq_some_iff.mp hfolded
  have hid : id ∈ (part (extracted documents)).names := by
    obtain ⟨w, hw⟩ : ∃ w, w ∈ (part (extracted documents)).versions id := by
      refine List.exists_mem_of_ne_nil _ fun hnil => ?_
      rw [hnil, List.map_nil] at hbodies
      rw [← hbodies] at hmerged
      cases hmerged
    exact Collection.mem_names_of_mem_versions hw
  refine ⟨_, Collection.effective?_withConsolidated hnone hsource hid hv, ?_, rfl⟩
  simpa [Version.isConsolidated, asConsolidated] using hsource

/-! ### Profiles that include nothing -/

/-- A profile but for what it rests on. -/
def TechnicalProfile.bare (p : TechnicalProfile) : TechnicalProfile := { p with ancestors := [] }

namespace Profiles

variable {profiles : Profiles}

/-- No version of a profile includes another profile. -/
def IncludesNothing (profiles : Profiles) : Prop :=
  Collection.All (fun v => includeOf? v = none) profiles

theorem includeOf?_folded? {versions : List (Version TechnicalProfile)}
    (h : ∀ v ∈ versions, includeOf? v = none) {v : Version TechnicalProfile}
    (hv : folded? versions = some v) : includeOf? v = none := by
  rw [folded?_eq_laid?_byDepth] at hv
  refine laid?_induction (Q := fun v => includeOf? v = none) (P := fun _ v => includeOf? v = none)
    (fun _ hw => hw) (fun _ base derived hbase hderived => ?_)
    (fun w hw => h w (List.mem_mergeSort.mp hw)) hv
  -- a derived version that names nothing leaves the base its empty include, or none
  have hlayer : (base.layer derived).body.includes =
      (derived.body.includes <|> base.body.includes) := rfl
  unfold includeOf? at *
  rw [hlayer]
  cases hincludes : derived.body.includes with
  | none => exact hbase
  | some included => rw [hincludes] at hderived; exact hderived

theorem fullInclude?_of_includesNothing (h : profiles.IncludesNothing) (id : String) :
    profiles.fullInclude? id = none := by
  unfold fullInclude? own?
  cases hown : folded? (profiles.originals id) with
  | none => rfl
  | some own =>
    have hnone := includeOf?_folded? (fun v hv => Collection.All.of_mem_versions h
      (Collection.mem_versions_of_mem_originals hv)) hown
    simp [includedBy?, hnone]

theorem checkIncludes_of_includesNothing (h : profiles.IncludesNothing) :
    profiles.checkIncludes = .ok () := by
  refine checkIncludes_eq_ok_iff.mpr ⟨fun v hv => ?_, fun id _ => ?_⟩
  · obtain ⟨versions, hversions, hv⟩ := List.mem_flatten.mp hv
    obtain ⟨entry, hentry, rfl⟩ := List.mem_map.mp hversions
    simp [unresolvedFault?, h entry hentry v hv]
  · have hinclude : ∀ w : Version TechnicalProfile, profiles.includeAt? w.id w.depth = none := by
      intro w
      refine List.findSome?_eq_none_iff.mpr fun u hu => ?_
      exact Collection.All.of_mem_versions h
        (Collection.mem_versions_of_mem_originals (mem_upTo.mp (List.mem_mergeSort.mp hu)).1)
    unfold circleFrom?
    cases profiles.effective? id with
    | none => rfl
    | some v => simp [circleFault?, hinclude]

theorem isAcyclic_of_includesNothing (h : profiles.IncludesNothing) : profiles.IsAcyclic := by
  intro id hcycle
  obtain ⟨included, hstep, -⟩ := TransGen.head'_iff.mp hcycle
  rw [IncludesInFull, fullInclude?_of_includesNothing h] at hstep
  cases hstep

/-- A profile that includes nothing amounts to its own versions. -/
theorem amounts?_of_includesNothing (h : profiles.IncludesNothing) (id : String) :
    ∃ ancestors, profiles.amounts? id = (profiles.own? id).map fun v =>
      { v with body := { v.body with ancestors } } := by
  refine ⟨_, congrArg (Option.map _) ?_⟩
  rw [layers]
  cases hown : profiles.own? id with
  | none => rfl
  | some own =>
    have hnone : includedBy? own id = none := by
      simpa [fullInclude?, hown] using fullInclude?_of_includesNothing h id
    simp [hnone, merged?]

/-- A version with what it rests on. -/
def told (profiles : Profiles) (v : Version TechnicalProfile) : Version TechnicalProfile :=
  if v.isConsolidated then v
  else { v with body := { v.body with ancestors := profiles.ancestorsOf v } }

theorem source_told (profiles : Profiles) (v : Version TechnicalProfile) :
    (profiles.told v).source = v.source := by
  unfold told
  split <;> rfl

theorem bare_told (profiles : Profiles) (v : Version TechnicalProfile) :
    (profiles.told v).body.bare = v.body.bare := by
  unfold told
  split <;> rfl

theorem includeOf?_told (profiles : Profiles) (v : Version TechnicalProfile) :
    includeOf? (profiles.told v) = includeOf? v := by
  unfold told
  split <;> rfl

theorem all_withAncestors {P Q : Version TechnicalProfile → Prop}
    (h : Collection.All P profiles) (hPQ : ∀ v, P v → Q (profiles.told v)) :
    Collection.All Q profiles.withAncestors := by
  intro entry hentry v hv
  obtain ⟨old, hold, rfl⟩ := List.mem_map.mp hentry
  obtain ⟨w, hw, rfl⟩ := List.mem_map.mp hv
  exact hPQ w (h old hold w hw)

theorem versions_withAncestors (id : String) :
    Collection.versions profiles.withAncestors id =
      (Collection.versions profiles id).map profiles.told := by
  rw [Collection.versions, withAncestors, Fields.mapValues, Fields.get?_map, Collection.versions]
  cases Fields.get? profiles id <;> rfl

/-- **The version of a profile that counts is what its versions amount to**, but for what it
rests on, if no profile includes another one. -/
theorem effective?_withAncestors (hincludes : profiles.IncludesNothing)
    (hnone : Collection.All (fun v => v.isConsolidated = false) profiles) (source : Source)
    (hsource : source.policyId = consolidatedPolicyId) {id : String}
    (hsorted : (Collection.versions profiles id).Pairwise fun v w => v.depth ≤ w.depth)
    {merged : TechnicalProfile}
    (hmerged : laid? Definition.layer ((Collection.versions profiles id).map Version.body) =
      some merged) :
    ∃ v, Collection.effective? (Collection.withConsolidated source
        (amounts? profiles.withAncestors) profiles.withAncestors) id = some v ∧
      v.isConsolidated = true ∧ v.body.bare = merged.bare := by
  have hnone' : Collection.All (fun v => v.isConsolidated = false) profiles.withAncestors :=
    all_withAncestors hnone fun v hv => by
      simpa only [Version.isConsolidated, source_told] using hv
  have hincludes' : profiles.withAncestors.IncludesNothing :=
    all_withAncestors hincludes fun v hv => (includeOf?_told _ v).trans hv
  have hown : profiles.withAncestors.own? id =
      laid? Version.layer ((Collection.versions profiles id).map profiles.told) := by
    rw [own?, Collection.originals_eq_versions hnone', versions_withAncestors, folded?_eq_laid?]
    refine List.pairwise_map.mpr (hsorted.imp fun h => ?_)
    simpa only [Version.depth, source_told] using h
  -- what a version rests on is told of it alone, and laying leaves the rest to itself
  have hview : ∀ versions : List (Version TechnicalProfile),
      (laid? Version.layer versions).map (fun v => v.body.bare) =
        laid? Definition.layer (versions.map fun v => v.body.bare) :=
    map_laid? (fun v : Version TechnicalProfile => v.body.bare) fun _ _ => rfl
  have hbare : (profiles.withAncestors.own? id).map (fun v => v.body.bare) =
      some merged.bare := by
    have hbodies : ∀ bodies : List TechnicalProfile,
        (laid? Definition.layer bodies).map TechnicalProfile.bare =
          laid? Definition.layer (bodies.map TechnicalProfile.bare) :=
      map_laid? TechnicalProfile.bare fun _ _ => rfl
    rw [hown, hview, List.map_map]
    simp only [Function.comp_def, bare_told]
    rw [← Option.map_some, ← hmerged, hbodies, List.map_map]
    rfl
  obtain ⟨own, hown, hbare⟩ := Option.map_eq_some_iff.mp hbare
  obtain ⟨ancestors, hamounts⟩ := amounts?_of_includesNothing hincludes' id
  rw [hown, Option.map_some] at hamounts
  have hid : id ∈ Fields.names profiles.withAncestors := by
    by_contra hnot
    have hnil : Collection.originals profiles.withAncestors id = [] := by
      rw [Collection.originals, Collection.versions, Fields.get?_eq_none_iff.mpr hnot]
      rfl
    rw [own?, folded?_eq_none_iff.mpr hnil] at hown
    cases hown
  refine ⟨_, Collection.effective?_withConsolidated hnone' hsource hid hamounts, ?_, hbare⟩
  simpa [Version.isConsolidated, asConsolidated] using hsource

end Profiles

/-- **A store without includes is resolved**: its profiles are told what they rest on, and every
thing gets a consolidated version. -/
theorem Store.resolve_eq_ok {store : Store} (h : Profiles.IncludesNothing store.technicalProfiles)
    (fileName : String) (fileCount : Int) :
    store.resolve fileName fileCount = .ok (store.withAncestors.layered fileName fileCount) := by
  have htold : Profiles.IncludesNothing store.withAncestors.technicalProfiles :=
    Profiles.all_withAncestors h fun v hv => (Profiles.includeOf?_told _ v).trans hv
  have hends := Profiles.all_ends_iff_isAcyclic.mpr (Profiles.isAcyclic_of_includesNothing htold)
  rw [resolve, checked, Profiles.checkIncludes_of_includesNothing h]
  exact if_pos hends

end TrustFramework
