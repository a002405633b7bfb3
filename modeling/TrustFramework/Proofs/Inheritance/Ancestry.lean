import TrustFramework.Proofs.Inheritance.Resolved

/-!
# Ancestors and what is merged

What a consolidated profile rests on is what its highest version rests on.  The includes among
these ancestors come from a walk that goes on, at each version it comes to, to the include in
force at the depth of this version.  The walk never goes up again, while what is merged beneath a
profile are the profiles that all versions together include.  So the ancestors miss what is
merged wherever a version above the walk has changed an include.

## Main definitions

* `TechnicalProfile.includedIds` — the included profiles among the ancestors of a profile.
* `Profiles.underneath` — the profiles that are merged beneath a profile.
* `Stop`, `Profiles.goOn?`, `Profiles.Reaches` — the stops of the walk along includes.

## Main results

* `Profiles.underneath_eq` — what is merged beneath a profile, one profile at a time.
* `Profiles.map_includedFrom_eq_underneath_iff` — when a walk passes what is merged.
* `Profiles.IsSteady.next?_eq` — it does where no version changes an include.
* `ancestors_tell_what_is_merged_iff` — **when ancestors tell what is merged.**
* `ancestors_miss_what_is_merged` — a store where they do not.
-/

namespace TrustFramework

open Relation

/-- The included profiles among the ancestors of a profile, in their order. -/
def TechnicalProfile.includedIds (p : TechnicalProfile) : List String :=
  (p.ancestors.filter fun a => a.descent = .included).map Ancestor.profileId

namespace Profiles

variable {profiles : Profiles} {id : String}

/-- The included profiles among the ancestors of a version are those that the walk passes. -/
theorem map_profileId_ancestorsOf (profiles : Profiles) (v : Version TechnicalProfile) :
    ((profiles.ancestorsOf v).filter fun a => a.descent = .included).map Ancestor.profileId =
      (profiles.includedFrom (profiles.length + 1) [v.id] v.id v.depth).map Version.id := by
  have hdirect (versions : List (Version TechnicalProfile)) :
      (versions.map (ancestor .direct)).filter (fun a => a.descent = .included) = [] := by
    simp [ancestor]
  have hincluded (versions : List (Version TechnicalProfile)) :
      (versions.map (ancestor .included)).filter (fun a => a.descent = .included) =
        versions.map (ancestor .included) := by
    simp [ancestor]
  rw [ancestorsOf, List.filter_append, hdirect, hincluded, List.nil_append, List.map_map]
  rfl

/-! ### What is merged -/

/-- The profiles that are merged beneath a profile: the one it includes as a whole, the one that
this one includes, and so on. -/
def underneath (profiles : Profiles) (id : String) : List String :=
  (profiles.fullLayers id).tail.map Version.id

/-- Versions of one profile laid onto each other are of this profile. -/
theorem id_own? (hkeyed : Collection.IsKeyed profiles) {own : Version TechnicalProfile}
    (h : profiles.own? id = some own) : own.id = id := by
  rw [own?, folded?_eq_laid?_byDepth] at h
  refine laid?_induction (Q := fun v => v.id = id) (P := fun _ v => v.id = id)
    (fun v hv => hv) (fun _ base derived _ hderived => hderived) (fun v hv => ?_) h
  exact hkeyed.id_eq (Collection.mem_versions_of_mem_originals (List.mem_mergeSort.mp hv))

/-- **Beneath a profile is the profile it includes, and what is beneath that one.** -/
theorem underneath_eq (hkeyed : Collection.IsKeyed profiles)
    (hsound : ∀ v ∈ profiles.values.flatten, profiles.unresolvedFault? v = none)
    (hends : ∀ id, profiles.ends id = true) (id : String) :
    profiles.underneath id = match profiles.fullInclude? id with
      | none => []
      | some included => included :: profiles.underneath included := by
  unfold underneath
  rw [fullLayers_eq (hends id)]
  cases hown : profiles.own? id with
  | none =>
    have hnone : profiles.fullInclude? id = none := by rw [fullInclude?, hown, Option.bind_none]
    rw [hnone]
    rfl
  | some own =>
    cases hinclude : profiles.fullInclude? id with
    | none => rfl
    | some included =>
      -- the included profile is there, so that its layers begin with itself
      have hfull : profiles.fullyIncluded? id = some included := by
        rw [fullInclude?_eq] at hinclude
        exact (Option.filter_eq_some_iff.mp hinclude).1
      have hthere : profiles.own? included ≠ none := fun hnone =>
        exists_original_of_fullyIncluded? hsound hfull (folded?_eq_none_iff.mp hnone)
      obtain ⟨base, hbase⟩ := Option.ne_none_iff_exists'.mp hthere
      simp only [List.tail_cons]
      rw [fullLayers_eq (hends included), hbase]
      simp only [List.map_cons, List.tail_cons, id_own? hkeyed hbase]

end Profiles

/-! ### The walk -/

/-- A stop of a walk along includes: the profiles that were passed, and the version that the walk
has come to. -/
structure Stop where
  passed : List String
  version : Version TechnicalProfile

namespace Profiles

variable {profiles : Profiles}

/-- The profile that the walk goes on to: the include in force where it is, unless it was
passed. -/
def next? (profiles : Profiles) (s : Stop) : Option String :=
  (profiles.includeAt? s.version.id s.version.depth).filter fun included =>
    !s.passed.contains included

/-- The next stop. -/
def goOn? (profiles : Profiles) (s : Stop) : Option Stop :=
  (profiles.next? s).bind fun included =>
    (profiles.visible? included s.version.depth).map fun v => ⟨included :: s.passed, v⟩

/-- A walk from one stop comes to another one. -/
def Reaches (profiles : Profiles) : Stop → Stop → Prop :=
  ReflTransGen fun s t => profiles.goOn? s = some t

/-- What holds wherever a walk comes to holds where it is, and wherever it comes to from the next
stop. -/
theorem forall_reaches_iff {P : Stop → Prop} {s : Stop} :
    (∀ t, profiles.Reaches s t → P t) ↔
      P s ∧ ∀ next, profiles.goOn? s = some next → ∀ t, profiles.Reaches next t → P t := by
  constructor
  · intro h
    exact ⟨h s ReflTransGen.refl, fun next hnext t ht => h t (ReflTransGen.head hnext ht)⟩
  · rintro ⟨hs, hrest⟩ t ht
    rcases ReflTransGen.cases_head ht with rfl | ⟨next, hnext, ht⟩
    · exact hs
    · exact hrest next hnext t ht

/-- In sound includes a walk that goes on comes to a version of the profile it goes on to. -/
theorem exists_goOn? (hkeyed : Collection.IsKeyed profiles)
    (hsound : ∀ v ∈ profiles.values.flatten, profiles.unresolvedFault? v = none) {s : Stop}
    {included : String} (h : profiles.next? s = some included) :
    included ∉ s.passed ∧ ∃ v ∈ profiles.versions included, v.id = included ∧
      profiles.visible? included s.version.depth = some v ∧
      profiles.goOn? s = some ⟨included :: s.passed, v⟩ := by
  obtain ⟨hinclude, hnew⟩ := Option.filter_eq_some_iff.mp h
  obtain ⟨v, hv⟩ := Option.isSome_iff_exists.mp (visible?_isSome_of_includeAt? hsound hinclude)
  have hmem : v ∈ profiles.versions included :=
    Collection.mem_versions_of_mem_originals (mem_originals_of_visible? hv)
  refine ⟨by simpa using hnew, v, hmem, hkeyed.id_eq hmem, hv, ?_⟩
  rw [goOn?, h, Option.bind_some, hv, Option.map_some]

theorem includedFrom_succ (bound : Nat) (s : Stop) :
    profiles.includedFrom (bound + 1) s.passed s.version.id s.version.depth =
      match profiles.goOn? s with
      | none => []
      | some t =>
        t.version :: profiles.includedFrom bound t.passed t.version.id t.version.depth := by
  rw [includedFrom, goOn?, next?]
  cases profiles.includeAt? s.version.id s.version.depth with
  | none => rfl
  | some included =>
    have hfilter : (some included).filter (fun name => !s.passed.contains name) =
        if s.passed.contains included then none else some included := by
      cases h : s.passed.contains included <;> simp only [Option.filter, h] <;> rfl
    by_cases hpassed : s.passed.contains included = true
    · simp only [hfilter, if_pos hpassed, Option.bind_none]
    · simp only [hfilter, if_neg hpassed, Option.bind_some]
      cases profiles.visible? included s.version.depth <;> rfl

/-- **When a walk passes what is merged**: when it goes on, wherever it comes to, to what the
profile there includes as a whole.  The profiles passed are distinct, so that the bound outlasts
the walk. -/
theorem map_includedFrom_eq_underneath_iff (hkeyed : Collection.IsKeyed profiles)
    (hsound : ∀ v ∈ profiles.values.flatten, profiles.unresolvedFault? v = none)
    (hends : ∀ id, profiles.ends id = true) (bound : Nat) {s : Stop} (hnodup : s.passed.Nodup)
    (hnames : s.passed ⊆ profiles.names) (hbound : profiles.length < s.passed.length + bound) :
    (profiles.includedFrom bound s.passed s.version.id s.version.depth).map Version.id =
        profiles.underneath s.version.id ↔
      ∀ t, profiles.Reaches s t → profiles.next? t = profiles.fullInclude? t.version.id := by
  induction bound generalizing s with
  | zero =>
    have h := length_le_of_subset_names hnodup hnames
    omega
  | succ bound ih =>
    rw [forall_reaches_iff, includedFrom_succ, underneath_eq hkeyed hsound hends]
    cases hnext : profiles.next? s with
    | none =>
      have hgo : profiles.goOn? s = none := by rw [goOn?, hnext, Option.bind_none]
      rw [hgo]
      cases profiles.fullInclude? s.version.id <;> simp
    | some included =>
      obtain ⟨hnew, v, hv, hid, -, hgo⟩ := exists_goOn? hkeyed hsound hnext
      have hrest := ih (s := ⟨included :: s.passed, v⟩) (List.nodup_cons.mpr ⟨hnew, hnodup⟩)
        (List.cons_subset.mpr ⟨Collection.mem_names_of_mem_versions hv, hnames⟩)
        (by simp only [List.length_cons]; omega)
      simp only [hid] at hrest
      rw [hgo]
      cases hinclude : profiles.fullInclude? s.version.id with
      | none => simp
      | some other =>
        simp only [List.map_cons, List.cons.injEq, Option.some.injEq, forall_eq', hid]
        constructor
        · rintro ⟨rfl, heq⟩
          exact ⟨rfl, hrest.mp heq⟩
        · rintro ⟨rfl, hall⟩
          exact ⟨rfl, hrest.mpr hall⟩

/-! ### Where no version changes an include -/

/-- A walk goes down the includes of profiles as a whole where no version changes an include, so
that it never goes on to a profile that it has passed. -/
theorem IsSteady.next?_eq (hsteady : profiles.IsSteady) (hkeyed : Collection.IsKeyed profiles)
    (hsound : ∀ v ∈ profiles.values.flatten, profiles.unresolvedFault? v = none)
    (hacyclic : profiles.IsAcyclic) {first : Version TechnicalProfile} {id : String}
    (hfirst : first ∈ profiles.versions id) {s : Stop}
    (h : profiles.Reaches ⟨[id], first⟩ s) :
    profiles.next? s = profiles.fullInclude? s.version.id := by
  have hstop : s.version ∈ profiles.versions s.version.id ∧
      ∀ other ∈ s.passed, ReflTransGen profiles.IncludesInFull other s.version.id := by
    induction h with
    | refl =>
      have hid : first.id = id := hkeyed.id_eq hfirst
      refine ⟨hid.symm ▸ hfirst, fun other hother => ?_⟩
      rw [List.mem_singleton.mp hother, hid]
    | @tail t s _ hgo ih =>
      obtain ⟨hversion, hpassed⟩ := ih
      obtain ⟨included, hnext, -⟩ := Option.bind_eq_some_iff.mp hgo
      obtain ⟨-, v, hv, hid, -, hgo'⟩ := exists_goOn? hkeyed hsound hnext
      obtain rfl := Option.some.inj (hgo.symm.trans hgo')
      have hstep : profiles.IncludesInFull t.version.id included :=
        (hsteady _ _ hversion).symm.trans (Option.filter_eq_some_iff.mp hnext).1
      refine ⟨hid.symm ▸ hv, fun other hother => ?_⟩
      simp only [hid]
      rcases List.mem_cons.mp hother with rfl | hother
      · exact ReflTransGen.refl
      · exact (hpassed other hother).tail hstep
  obtain ⟨hversion, hpassed⟩ := hstop
  rw [next?, hsteady _ _ hversion]
  cases hinclude : profiles.fullInclude? s.version.id with
  | none => rfl
  | some included =>
    -- what was passed leads to here, so that going back to it would be a circle
    have hnew : included ∉ s.passed := fun hmem =>
      hacyclic included (TransGen.tail' (hpassed included hmem) hinclude)
    exact Option.filter_eq_some_iff.mpr ⟨rfl, by simpa using hnew⟩

end Profiles

/-! ### When ancestors tell what is merged -/

section

open Profiles

/-- **When ancestors tell what is merged.**  In a resolved store, the included profiles among the
ancestors of what a profile amounts to are the profiles that were merged beneath it exactly if the
walk from its highest version goes on, wherever it comes to, to what the profile there includes as
a whole.  It does in particular when no version changes what a lower one includes. -/
theorem ancestors_tell_what_is_merged_iff {store resolved : Store} {fileName : String}
    {fileCount : Int} (hkeyed : Collection.IsKeyed store.technicalProfiles)
    (hresolve : store.resolve fileName fileCount = .ok resolved) {id : String}
    (hid : Collection.originals store.technicalProfiles id ≠ []) :
    ∃ v latest, store.Gains resolved fileName fileCount id v ∧
      highest? (Collection.originals store.technicalProfiles id) = some latest ∧
      (merged? (fullLayers store.technicalProfiles id)).map (fun whole => whole.body.bare) =
        some v.body.bare ∧
      (v.body.includedIds = underneath store.technicalProfiles id ↔
        ∀ s, Reaches store.technicalProfiles ⟨[id], latest⟩ s →
          next? store.technicalProfiles s = fullInclude? store.technicalProfiles s.version.id) ∧
      (IsSteady store.technicalProfiles →
        v.body.includedIds = underneath store.technicalProfiles id) := by
  obtain ⟨hcheck, hends, -⟩ := Store.resolve_eq_ok_iff.mp hresolve
  have hacyclic : IsAcyclic store.technicalProfiles :=
    all_ends_iff_isAcyclic.mp (List.all_eq_true.mpr hends)
  have hsound := (checkIncludes_eq_ok_iff.mp hcheck).1
  obtain ⟨v, latest, whole, hgains, hlatest, hwhole, hbody⟩ := Store.exists_gains hresolve hid
  have hmem : latest ∈ Collection.versions store.technicalProfiles id :=
    Collection.mem_versions_of_mem_originals (mem_of_highest? hlatest)
  have hlatestId : latest.id = id := hkeyed.id_eq hmem
  have hwalk := map_includedFrom_eq_underneath_iff hkeyed hsound (ends_of_isAcyclic hacyclic)
    (store.technicalProfiles.length + 1) (s := ⟨[id], latest⟩) (List.nodup_singleton id)
    (List.cons_subset.mpr ⟨Collection.mem_names_of_mem_versions hmem, List.nil_subset _⟩)
    (by simp only [List.length_singleton]; omega)
  have hincluded : v.body.includedIds = (includedFrom store.technicalProfiles
      (store.technicalProfiles.length + 1) [id] id latest.depth).map Version.id := by
    rw [TechnicalProfile.includedIds, hbody, map_profileId_ancestorsOf, hlatestId]
  simp only [hlatestId] at hwalk
  rw [← hincluded] at hwalk
  have hmerged : (merged? (fullLayers store.technicalProfiles id)).map
      (fun whole => whole.body.bare) = some v.body.bare := by
    rw [show merged? (fullLayers store.technicalProfiles id) = some whole from hwhole, hbody]
    rfl
  refine ⟨v, latest, hgains, hlatest, hmerged, hwalk, fun hsteady => hwalk.mpr fun s hs => ?_⟩
  exact hsteady.next?_eq hkeyed hsound hacyclic hmem hs

/-- Where no version changes an include, as when one says nothing of it, ancestors tell what is
merged. -/
theorem ancestors_tell_what_is_merged_overridden :
    Collection.IsKeyed overridden ∧ overridden.IsSteady ∧ ∃ resolved,
      overridden.toStore.resolve "ConsolidatedPolicy" 2 = .ok resolved ∧
      ∃ v, overridden.toStore.Gains resolved "ConsolidatedPolicy" 2 "A" v ∧
        v.body.includedIds = overridden.underneath "A" := by
  have hkeyed : Collection.IsKeyed overridden := by
    simp [Collection.IsKeyed, overridden, bareVersion]
  have hsteady : overridden.IsSteady := by
    intro id v hv
    by_cases hA : id = "A"
    · subst hA
      have : v = bareVersion "A" 0 (some "B") ∨ v = bareVersion "A" 1 none := by
        simpa [Collection.versions, overridden, Fields.get?] using hv
      rcases this with rfl | rfl <;> cbv
    by_cases hB : id = "B"
    · subst hB
      have : v = bareVersion "B" 0 none := by
        simpa [Collection.versions, overridden, Fields.get?] using hv
      subst this
      cbv
    · have hnone : Collection.versions overridden id = [] := by
        simp [Collection.versions, overridden, Fields.get?, Ne.symm hA, Ne.symm hB]
      rw [hnone] at hv
      cases hv
  have hresolve := Store.resolve_toStore "ConsolidatedPolicy" 2
    (show overridden.checkIncludes = .ok () by cbv)
    (show overridden.names.all overridden.ends = true by cbv)
  have hid : Collection.originals overridden "A" ≠ [] := highest?_isSome_iff.mp (by cbv)
  obtain ⟨v, -, hgains, -, -, -, htell⟩ :=
    @ancestors_tell_what_is_merged_iff overridden.toStore _ _ _ hkeyed hresolve "A" hid
  exact ⟨hkeyed, hsteady, _, hresolve, v, hgains, htell hsteady⟩

/-- Profiles of which one includes another, which is given an include by a file above. -/
def outgrown : Profiles :=
  [("A", [bareVersion "A" 0 (some "B")]),
    ("B", [bareVersion "B" 0 none, bareVersion "B" 1 (some "C")]),
    ("C", [bareVersion "C" 1 none])]

/-- **Ancestors that miss what is merged**: beneath `A` is `B`, and `C` beneath it, but from `A`
the walk comes to the version of `B` that does not include `C` yet. -/
theorem ancestors_miss_what_is_merged :
    ¬ ∀ (store resolved : Store) (fileName : String) (fileCount : Int) (id : String)
      (v : Version TechnicalProfile), Collection.IsKeyed store.technicalProfiles →
      store.resolve fileName fileCount = .ok resolved →
      store.Gains resolved fileName fileCount id v →
      v.body.includedIds = underneath store.technicalProfiles id := by
  intro h
  have hkeyed : Collection.IsKeyed outgrown := by
    simp [Collection.IsKeyed, outgrown, bareVersion]
  have hresolve := Store.resolve_toStore "ConsolidatedPolicy" 2
    (show outgrown.checkIncludes = .ok () by cbv)
    (show outgrown.names.all outgrown.ends = true by cbv)
  have hid : Collection.originals outgrown "A" ≠ [] := highest?_isSome_iff.mp (by cbv)
  obtain ⟨v, latest, whole, hgains, hlatest, -, hbody⟩ := Store.exists_gains hresolve hid
  have hwalk : (highest? (Collection.originals outgrown "A")).map (fun latest =>
      (outgrown.includedFrom (outgrown.length + 1) [latest.id] latest.id latest.depth).map
        Version.id) = some ["B"] := by cbv
  have hpassed : v.body.includedIds = ["B"] := by
    rw [show highest? (Collection.originals outgrown "A") = some latest from hlatest,
      Option.map_some, Option.some.injEq] at hwalk
    rw [TechnicalProfile.includedIds, hbody, ← hwalk]
    exact map_profileId_ancestorsOf outgrown latest
  have hmerged : outgrown.underneath "A" = ["B", "C"] := by cbv
  have heq := h outgrown.toStore _ _ _ "A" v hkeyed hresolve hgains
  rw [hpassed, show underneath outgrown.toStore.technicalProfiles "A" = ["B", "C"] from hmerged]
    at heq
  cases heq

end

end TrustFramework
