import TrustFramework.Proofs.Processing.Provenance

/-!
# Versions that override

A version is said to override if, when its document is read, another file has the thing.  That is
to tell whether a document below its own defines the thing, and it does so where files have names
of their own and no policy is named like the consolidated one.  Files of one name are taken for
one, and the versions of a policy with the consolidated one's name are passed over; what rests on
nothing else is said to override nothing.

## Main definitions

* `Collection.TellsOverrides` — versions override just when there is a version below them.

## Main results

* `Processing.overrides_told_iff` — **when versions that override are told from those that do
  not.**
* `Processing.overrides_untold` — two files of one name.
-/

namespace TrustFramework

/-- The versions of a thing from files are said to override just when there is a version of lower
depth. -/
def Collection.TellsOverrides {α : Type} (c : Collection α) (id : String) : Prop :=
  ∀ v ∈ c.versions id, v.isConsolidated = false →
    (v.isOverride = true ↔ ∃ w ∈ c.versions id, w.depth < v.depth)

theorem mem_of_length_lt {α : Type} {before before' after after' : List α} {x y : α}
    (h : before' ++ y :: after' = before ++ x :: after) (hlt : before'.length < before.length) :
    y ∈ before := by
  have hget : before[before'.length]? = some y := by
    rw [← List.getElem?_append_left hlt, ← h, List.getElem?_append_right (Nat.le_refl _)]
    simp
  exact List.mem_of_getElem? hget

namespace Processing

variable {settings : ConsolidationSettings} {files : List PolicyFile} {o : Outcome}
  {kind : Kind} {id : String} {before after : List Document} {d : Document}

/-- A version of an outcome that is not taken for the consolidated one comes from a document. -/
theorem exists_isFrom_of_run (hrun : run settings files = .ok o) {v : Version Unit}
    (hv : v ∈ (o.store.reports kind).origins id) (hfile : v.isConsolidated = false) :
    ∃ before d after, o.documents = before ++ d :: after ∧ IsFrom kind id before d v := by
  rcases (isConsolidation_of_run hrun kind id).mem_or_source_eq hv with hv | hsource
  · exact exists_isFrom hv
  · simp [Version.isConsolidated, hsource, Store.consolidatedSource] at hfile

/-- There is a version below a document just when a document below it defines the thing. -/
theorem exists_depth_lt_iff (hrun : run settings files = .ok o)
    (hdocuments : o.documents = before ++ d :: after) :
    (∃ w ∈ (o.store.reports kind).origins id, w.depth < before.length) ↔
      ∃ e ∈ before, e.Defines kind id := by
  have hconsolidation := isConsolidation_of_run hrun kind id
  constructor
  · rintro ⟨w, hw, hlt⟩
    rcases hconsolidation.mem_or_source_eq hw with hw | hsource
    · obtain ⟨before', e, after', hsplit, hfrom⟩ := exists_isFrom hw
      rw [hfrom.depth_eq] at hlt
      exact ⟨e, mem_of_length_lt (hsplit.symm.trans hdocuments) (by omega), hfrom.defines⟩
    · -- the consolidated version stands above all documents
      have hdepth : w.depth = o.documents.length := congrArg Source.depth hsource
      rw [hdepth, hdocuments, List.length_append] at hlt
      omega
  · rintro ⟨e, he, hdefines⟩
    obtain ⟨front, back, rfl⟩ := List.append_of_mem he
    obtain ⟨w, hw, hfrom⟩ := exists_of_defines hdefines front (back ++ d :: after)
    have hsplit : o.documents = front ++ e :: (back ++ d :: after) := by simp [hdocuments]
    refine ⟨w, hconsolidation.mem (hsplit ▸ hw), ?_⟩
    rw [hfrom.depth_eq, List.length_append, List.length_cons]
    omega

/-- Versions but for their definitions tell what overrides. -/
theorem tellsOverrides_iff {α : Type} {c : Collection α} :
    c.TellsOverrides id ↔ ∀ v ∈ c.origins id, v.isConsolidated = false →
      (v.isOverride = true ↔ ∃ w ∈ c.origins id, w.depth < v.depth) := by
  simp [Collection.TellsOverrides, Collection.origins]

/-- A version is known to override if another file below it has the thing, so that all is well
where each document on top of another one has such a file below it. -/
theorem tellsOverrides_iff_of_run (hrun : run settings files = .ok o) :
    (o.store.reports kind).TellsOverrides id ↔
      ∀ before d after, o.documents = before ++ d :: after →
        d.policyId ≠ consolidatedPolicyId → d.Defines kind id →
        (∃ e ∈ before, e.Defines kind id) → DefinedElsewhere before kind id d.fileName := by
  rw [tellsOverrides_iff]
  constructor
  · intro h before d after hsplit hpolicy hdefines hbelow
    obtain ⟨v, hv, hfrom⟩ := exists_of_defines hdefines before after
    have hoverride := h v ((isConsolidation_of_run hrun kind id).mem (hsplit ▸ hv))
      (hfrom.isConsolidated_eq_false_iff.mpr hpolicy)
    rw [hfrom.depth_eq, exists_depth_lt_iff hrun hsplit, hfrom.isOverride_iff,
      standsElsewhere_iff] at hoverride
    exact hoverride.mpr hbelow
  · intro h v hv hfile
    obtain ⟨before, d, after, hsplit, hfrom⟩ := exists_isFrom_of_run hrun hv hfile
    rw [hfrom.depth_eq, exists_depth_lt_iff hrun hsplit, hfrom.isOverride_iff,
      standsElsewhere_iff]
    refine ⟨fun ⟨e, he, hdefines, _⟩ => ⟨e, he, hdefines⟩, fun hbelow => ?_⟩
    exact h before d after hsplit (hfrom.isConsolidated_eq_false_iff.mp hfile) hfrom.defines hbelow

/-- Documents of different files, none of them named like the consolidated policy, are told from
each other. -/
theorem definedElsewhere_of_nodup (hnames : (o.documents.map Document.fileName).Nodup)
    (hpolicies : ∀ d ∈ o.documents, d.policyId ≠ consolidatedPolicyId)
    (hsplit : o.documents = before ++ d :: after) (hbelow : ∃ e ∈ before, e.Defines kind id) :
    DefinedElsewhere before kind id d.fileName := by
  obtain ⟨e, he, hdefines⟩ := hbelow
  rw [hsplit] at hnames hpolicies
  rw [List.map_append, List.map_cons] at hnames
  have hother : e.fileName ≠ d.fileName := fun heq =>
    (List.nodup_append.mp hnames).2.2 _ (List.mem_map_of_mem he) _ List.mem_cons_self heq
  exact ⟨e, he, hdefines, hpolicies e (List.mem_append_left _ he), hother⟩

/-- **What overrides is told by the names of files and policies.**  The versions of a thing that
come from files are said to override just when there is a version below them, exactly if each
document that defines the thing on top of another one has one below it that does so in a file of
another name and is not named like the consolidated policy.  It is so in particular if files have
names of their own and no policy has that name. -/
theorem overrides_told_iff (hrun : run settings files = .ok o) (kind : Kind) (id : String) :
    ((o.store.reports kind).TellsOverrides id ↔
      ∀ before d after, o.documents = before ++ d :: after →
        d.policyId ≠ consolidatedPolicyId → d.Defines kind id →
        (∃ e ∈ before, e.Defines kind id) → DefinedElsewhere before kind id d.fileName) ∧
    ((o.documents.map Document.fileName).Nodup →
      (∀ d ∈ o.documents, d.policyId ≠ consolidatedPolicyId) →
      (o.store.reports kind).TellsOverrides id) := by
  refine ⟨tellsOverrides_iff_of_run hrun, fun hnames hpolicies => ?_⟩
  refine (tellsOverrides_iff_of_run hrun).mpr fun before d after hsplit _ _ hbelow => ?_
  exact definedElsewhere_of_nodup hnames hpolicies hsplit hbelow

theorem overrides_told_derived :
    ∃ o, run {} (layered "derived.xml") = .ok o ∧
      (originsIn o.documents .userJourneys "SignIn").map
        (fun v => (v.depth, v.isOverride)) = [(0, false), (1, true)] ∧
      (o.store.reports .userJourneys).TellsOverrides "SignIn" := by
  obtain ⟨o, hrun, -, hdocuments, horigins⟩ := exists_run_layered
  have hnames : (o.documents.map Document.fileName).Nodup := by
    have hmap := congrArg (List.map Prod.fst) hdocuments
    rw [List.map_map] at hmap
    rw [show o.documents.map Document.fileName = _ from hmap]
    decide
  have htold := (overrides_told_iff hrun .userJourneys "SignIn").2 hnames
    (policyId_ne_of_map_eq hdocuments)
  exact ⟨o, hrun, horigins, htold⟩

/-- **Files of one name are taken for one**, so that none of them overrides another. -/
theorem overrides_untold :
    ¬ ∀ (settings : ConsolidationSettings) (files : List PolicyFile) (o : Outcome) (kind : Kind)
      (id : String), run settings files = .ok o → (o.store.reports kind).TellsOverrides id := by
  intro h
  obtain ⟨o, hrun, hspec⟩ := exists_eq_ok_of_any layeredOutcome_spec.2
  rw [← run_layered] at hrun
  obtain ⟨v, hv, hfile, hoverride, w, hw, hlt⟩ := of_decide_eq_true hspec
  have hmem := fun u => (isConsolidation_of_run hrun .userJourneys "SignIn").mem (v := u)
  have htold := (tellsOverrides_iff.mp (h _ _ _ _ "SignIn" hrun) v (hmem v hv) hfile).mpr
    ⟨w, hmem w hw, hlt⟩
  rw [hoverride] at htold
  cases htold

end Processing
end TrustFramework
