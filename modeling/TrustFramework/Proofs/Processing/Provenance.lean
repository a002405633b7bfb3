import TrustFramework.Proofs.Entity.Origins
import TrustFramework.Proofs.Processing.Files

/-!
# The documents that versions come from

Documents are read in the order of inheritance, and each gives its versions behind those of the
documents before it.  So a version is as deep as there are documents before its own, and it
overrides if one of these has the thing as well, in a file of another name and under a policy that
is not named like the consolidated one.  This holds of all kinds of definitions alike.

## Main definitions

* `Kind.idsIn`, `Document.Defines` — what a document defines.
* `IsPart` — a part of the store that holds the definitions of a kind.
* `Processing.IsFrom` — a version comes from a document behind others.
* `Processing.DefinedElsewhere` — a thing is defined in another file than a given one.

## Main results

* `Kind.exists_isPart` — every kind has its part of the store.
* `Processing.exists_isFrom`, `Processing.exists_of_defines` — **the versions of a thing are those
  of the documents that define it.**
* `Processing.isConsolidation_of_run` — processing puts one version behind them.
-/

namespace TrustFramework

/-- The identifiers of the definitions of a kind in a policy. -/
def Kind.idsIn : Kind → Value → List String
  | .claimTypes, root => (claimTypesIn root).map Found.id
  | .technicalProfiles, root => (technicalProfilesIn root).map Found.id
  | .claimsTransformations, root => (claimsTransformationsIn root).map Found.id
  | .displayControls, root => (displayControlsIn root).map Found.id
  | .userJourneys, root => (userJourneysIn root).map Found.id
  | .subJourneys, root => (subJourneysIn root).map Found.id
  | .claimsProviders, root => (claimsProvidersIn root).map Found.id

/-- A document defines a thing. -/
def Document.Defines (d : Document) (kind : Kind) (id : String) : Prop :=
  id ∈ kind.idsIn (d.tree.get Policy.rootName)

/-! ### Kinds -/

/-- A part of a store that holds the definitions of a kind, which a resolved store has with one
more version of each thing. -/
structure IsPart {α : Type} [Definition α] (kind : Kind) (part : Store → Collection α)
    (find : Value → List (Found α)) : Prop extends IsExtracted part find where
  reports_eq : ∀ store : Store, store.reports kind = Store.reported (part store)
  idsIn_eq : ∀ root, kind.idsIn root = (find root).map Found.id
  names_layered : ∀ (store : Store) (fileName : String) (fileCount : Int),
    (part (store.withAncestors.layered fileName fileCount)).names = (part store).names
  isConsolidation : ∀ (store : Store) (fileName : String) (fileCount : Int) (id : String),
    IsConsolidation (Store.consolidatedSource fileName fileCount) ((part store).origins id)
      ((part (store.withAncestors.layered fileName fileCount)).origins id)

section Parts

variable {α : Type} [Definition α] {kind : Kind} {part : Store → Collection α}
  {find : Value → List (Found α)}

/-- What a thing amounts to depends on its own versions, but for profiles. -/
theorem IsPart.of_consolidated (h : IsExtracted part find)
    (hreports : ∀ store : Store, store.reports kind = Store.reported (part store))
    (hids : ∀ root, kind.idsIn root = (find root).map Found.id)
    (hlayered : ∀ (store : Store) (fileName : String) (fileCount : Int),
      part (store.withAncestors.layered fileName fileCount) =
        (part store).consolidated (Store.consolidatedSource fileName fileCount)) :
    IsPart kind part find where
  toIsExtracted := h
  reports_eq := hreports
  idsIn_eq := hids
  names_layered store fileName fileCount := by
    rw [hlayered]
    exact Collection.names_withConsolidated
  isConsolidation store fileName fileCount id := by
    rw [hlayered]
    exact Collection.isConsolidation_withConsolidated _ Profiles.folded?_eq_none_iff

theorem isPart_technicalProfiles :
    IsPart .technicalProfiles Store.technicalProfiles technicalProfilesIn where
  toIsExtracted := isExtracted_technicalProfiles
  reports_eq _ := rfl
  idsIn_eq _ := rfl
  names_layered store fileName fileCount :=
    Collection.names_withConsolidated.trans store.names_withAncestors
  isConsolidation store fileName fileCount id := by
    rw [← Profiles.origins_withAncestors store.technicalProfiles]
    exact Collection.isConsolidation_withConsolidated _ Profiles.amounts?_eq_none_iff

/-- **Every kind has its part of the store.** -/
theorem Kind.exists_isPart (kind : Kind) :
    ∃ (α : Type) (_ : Definition α) (part : Store → Collection α)
      (find : Value → List (Found α)), IsPart kind part find := by
  cases kind with
  | technicalProfiles => exact ⟨_, _, _, _, isPart_technicalProfiles⟩
  | claimTypes =>
    exact ⟨_, _, Store.claimTypes, claimTypesIn,
      .of_consolidated ⟨rfl, fun _ _ _ => rfl⟩ (fun _ => rfl) (fun _ => rfl) fun _ _ _ => rfl⟩
  | claimsTransformations =>
    exact ⟨_, _, Store.claimsTransformations, claimsTransformationsIn,
      .of_consolidated ⟨rfl, fun _ _ _ => rfl⟩ (fun _ => rfl) (fun _ => rfl) fun _ _ _ => rfl⟩
  | displayControls =>
    exact ⟨_, _, Store.displayControls, displayControlsIn,
      .of_consolidated ⟨rfl, fun _ _ _ => rfl⟩ (fun _ => rfl) (fun _ => rfl) fun _ _ _ => rfl⟩
  | userJourneys =>
    exact ⟨_, _, _, _, .of_consolidated isExtracted_userJourneys (fun _ => rfl) (fun _ => rfl)
      fun _ _ _ => rfl⟩
  | subJourneys =>
    exact ⟨_, _, _, _, .of_consolidated isExtracted_subJourneys (fun _ => rfl) (fun _ => rfl)
      fun _ _ _ => rfl⟩
  | claimsProviders =>
    exact ⟨_, _, Store.claimsProviders, claimsProvidersIn,
      .of_consolidated ⟨rfl, fun _ _ _ => rfl⟩ (fun _ => rfl) (fun _ => rfl) fun _ _ _ => rfl⟩

end Parts

namespace Processing

variable {kind : Kind} {id : String} {documents before after : List Document} {d : Document}

/-! ### From documents to versions -/

/-- The versions of a thing in documents, but for their definitions. -/
def originsIn (documents : List Document) (kind : Kind) (id : String) : List (Version Unit) :=
  ((extracted documents).reports kind).origins id

theorem originsIn_nil : originsIn [] kind id = [] := by
  obtain ⟨α, _, part, find, h⟩ := kind.exists_isPart
  rw [originsIn, h.reports_eq, Collection.origins_reported]
  exact congrArg (Collection.origins · id) h.empty

/-- One more document gives its versions behind those of the others. -/
theorem originsIn_append_singleton (documents : List Document) (d : Document) (kind : Kind)
    (id : String) :
    ∃ news, originsIn (documents ++ [d]) kind id = originsIn documents kind id ++ news ∧
      (news ≠ [] ↔ d.Defines kind id) ∧
      ∀ v ∈ news, v.source = ⟨d.fileName, d.policyId, documents.length⟩ ∧
        (v.isOverride = true ↔ StandsElsewhere d.fileName (originsIn documents kind id)) := by
  obtain ⟨α, _, part, find, h⟩ := kind.exists_isPart
  rw [Document.Defines, h.idsIn_eq, originsIn, originsIn, h.reports_eq, h.reports_eq,
    Collection.origins_reported, Collection.origins_reported, extracted_append_singleton,
    h.extract]
  exact Collection.origins_recordAll _ _ _ _

/-- A version comes from a document that stands behind others: it is as deep as these are many,
and it overrides if one of them has the thing in another file. -/
structure IsFrom (kind : Kind) (id : String) (before : List Document) (d : Document)
    (v : Version Unit) : Prop where
  defines : d.Defines kind id
  source_eq : v.source = ⟨d.fileName, d.policyId, before.length⟩
  isOverride_iff :
    v.isOverride = true ↔ StandsElsewhere d.fileName (originsIn before kind id)

/-- **Every version comes from a document that defines the thing.** -/
theorem exists_isFrom {v : Version Unit} (hv : v ∈ originsIn documents kind id) :
    ∃ before d after, documents = before ++ d :: after ∧ IsFrom kind id before d v := by
  induction documents using List.reverseRecOn with
  | nil =>
    rw [originsIn_nil] at hv
    cases hv
  | append_singleton documents last ih =>
    obtain ⟨news, horigins, hdefines, hnews⟩ := originsIn_append_singleton documents last kind id
    rw [horigins] at hv
    rcases List.mem_append.mp hv with hv | hv
    · obtain ⟨before, d, after, rfl, hfrom⟩ := ih hv
      exact ⟨before, d, after ++ [last], by simp, hfrom⟩
    · exact ⟨documents, last, [], rfl, hdefines.mp (List.ne_nil_of_mem hv), (hnews v hv).1,
        (hnews v hv).2⟩

/-- **Every document that defines a thing has a version of it.** -/
theorem exists_of_defines (hd : d.Defines kind id) (before after : List Document) :
    ∃ v ∈ originsIn (before ++ d :: after) kind id, IsFrom kind id before d v := by
  -- the documents that follow put their versions behind it
  induction after using List.reverseRecOn with
  | nil =>
    obtain ⟨news, horigins, hdefines, hnews⟩ := originsIn_append_singleton before d kind id
    obtain ⟨v, hv⟩ := List.exists_mem_of_ne_nil _ (hdefines.mpr hd)
    exact ⟨v, horigins ▸ List.mem_append_right _ hv, hd, (hnews v hv).1, (hnews v hv).2⟩
  | append_singleton after last ih =>
    obtain ⟨v, hv, hfrom⟩ := ih
    obtain ⟨news, horigins, -⟩ := originsIn_append_singleton (before ++ d :: after) last kind id
    rw [← List.cons_append, ← List.append_assoc, horigins]
    exact ⟨v, List.mem_append_left _ hv, hfrom⟩

/-- A version is taken for the one that all versions amount to if its policy is named like that
one's. -/
theorem IsFrom.isConsolidated_eq_false_iff {v : Version Unit} (h : IsFrom kind id before d v) :
    v.isConsolidated = false ↔ d.policyId ≠ consolidatedPolicyId := by
  simp [Version.isConsolidated, h.source_eq]

theorem IsFrom.depth_eq {v : Version Unit} (h : IsFrom kind id before d v) :
    v.depth = before.length := by rw [Version.depth, h.source_eq]

/-- A thing is defined in another file than the given one, under a policy that is not named like
the consolidated one. -/
def DefinedElsewhere (documents : List Document) (kind : Kind) (id fileName : String) : Prop :=
  ∃ e ∈ documents, e.Defines kind id ∧ e.policyId ≠ consolidatedPolicyId ∧ e.fileName ≠ fileName

theorem standsElsewhere_iff {fileName : String} :
    StandsElsewhere fileName (originsIn documents kind id) ↔
      DefinedElsewhere documents kind id fileName := by
  constructor
  · rintro ⟨v, hv, hfile, hother⟩
    obtain ⟨before, e, after, rfl, hfrom⟩ := exists_isFrom hv
    rw [hfrom.source_eq] at hother
    exact ⟨e, by simp, hfrom.defines, hfrom.isConsolidated_eq_false_iff.mp hfile, hother⟩
  · rintro ⟨e, he, hdefines, hpolicy, hother⟩
    obtain ⟨before, after, rfl⟩ := List.append_of_mem he
    obtain ⟨v, hv, hfrom⟩ := exists_of_defines hdefines before after
    exact ⟨v, hv, hfrom.isConsolidated_eq_false_iff.mpr hpolicy, by rwa [hfrom.source_eq]⟩

theorem pairwise_depth_originsIn :
    (originsIn documents kind id).Pairwise fun v w => v.depth ≤ w.depth := by
  obtain ⟨α, _, part, find, h⟩ := kind.exists_isPart
  rw [originsIn, h.reports_eq, Collection.origins_reported]
  exact List.pairwise_map.mpr (h.versions_spec documents id).2.2

theorem isInhabited_extracted : ((extracted documents).reports kind).IsInhabited := by
  obtain ⟨α, _, part, find, h⟩ := kind.exists_isPart
  have hpart : (part (extracted documents)).IsInhabited := by
    induction documents using List.reverseRecOn with
    | nil =>
      rw [show part (extracted []) = [] from h.empty]
      exact Collection.isInhabited_nil
    | append_singleton documents d ih =>
      rw [extracted_append_singleton, h.extract]
      exact ih.recordAll _ _
  intro id hid
  rw [h.reports_eq] at hid ⊢
  rw [Collection.names_reported] at hid
  rw [Collection.origins_reported]
  exact hpart id hid

/-! ### From files to versions -/

section Run

variable {settings : ConsolidationSettings} {files : List PolicyFile} {o : Outcome}

/-- The store of an outcome is that of its documents, resolved. -/
theorem resolve_of_run (hrun : run settings files = .ok o) :
    (extracted o.documents).resolve settings.fileName o.documents.length = .ok o.store := by
  obtain ⟨ordered, -, ho⟩ := of_run_eq_ok hrun
  obtain ⟨store, tree, xml, graphs, hstore, -, -, -, rfl⟩ := ofDocuments_eq_ok_iff.mp ho
  exact hstore

/-- The documents of an outcome are those of the files. -/
theorem documents_perm_of_run (hrun : run settings files = .ok o) :
    o.documents.Perm (files.filterMap PolicyFile.document?) := by
  obtain ⟨ordered, horder, ho⟩ := of_run_eq_ok hrun
  obtain ⟨store, tree, xml, graphs, -, -, -, -, rfl⟩ := ofDocuments_eq_ok_iff.mp ho
  have houtcome := orderByInheritance_isOutcome (files.filterMap PolicyFile.document?)
  rw [horder] at houtcome
  exact houtcome.2.2.1

/-- **Processing puts one version behind those of the documents.** -/
theorem isConsolidation_of_run (hrun : run settings files = .ok o) (kind : Kind) (id : String) :
    IsConsolidation (Store.consolidatedSource settings.fileName o.documents.length)
      (originsIn o.documents kind id) ((o.store.reports kind).origins id) := by
  obtain ⟨α, _, part, find, h⟩ := kind.exists_isPart
  obtain ⟨-, -, hstore⟩ := Store.resolve_eq_ok_iff.mp (resolve_of_run hrun)
  rw [← hstore, originsIn, h.reports_eq, h.reports_eq, Collection.origins_reported,
    Collection.origins_reported]
  exact h.isConsolidation _ _ _ id

/-- A thing in the store of an outcome is defined in a document. -/
theorem originsIn_ne_nil_of_run (hrun : run settings files = .ok o)
    (hid : id ∈ (o.store.reports kind).names) : originsIn o.documents kind id ≠ [] := by
  obtain ⟨α, _, part, find, h⟩ := kind.exists_isPart
  obtain ⟨-, -, hstore⟩ := Store.resolve_eq_ok_iff.mp (resolve_of_run hrun)
  refine isInhabited_extracted id ?_
  rw [← hstore, h.reports_eq, Collection.names_reported, h.names_layered] at hid
  rw [h.reports_eq, Collection.names_reported]
  exact hid

end Run

/-! ### A policy on top of another one -/

/-- A base policy and one on top of it that defines the same journey, in a file of a name. -/
def layered (name : String) : List PolicyFile := [.base, .derived name]

/-- What the documents of these files come to. -/
def layeredOutcome (name : String) : Except Policy.Fault Outcome :=
  orderByInheritance [PolicyFile.policyDocument "base.xml" "Base" none,
    PolicyFile.policyDocument name "Derived" (some "Base")] >>=
      ofDocuments {} ((layered name).flatMap PolicyFile.remarks)

theorem run_layered (name : String) : run {} (layered name) = layeredOutcome name :=
  run_eq_of_map_document? (List.cons_ne_nil _ _) (by
    simp [layered, PolicyFile.document?_base, PolicyFile.document?_derived])

/-- In files of names of their own, one version of the journey overrides the other.  In files of
one name, none does. -/
theorem layeredOutcome_spec :
    (layeredOutcome "derived.xml").toOption.any (fun o : Outcome =>
      decide ("SignIn" ∈ (o.store.reports .userJourneys).names ∧
        o.documents.map (fun d => (d.fileName, d.policyId)) =
          [("base.xml", "Base"), ("derived.xml", "Derived")] ∧
        (originsIn o.documents .userJourneys "SignIn").map (fun v => (v.depth, v.isOverride)) =
          [(0, false), (1, true)])) = true ∧
    (layeredOutcome "base.xml").toOption.any (fun o : Outcome =>
      decide (∃ v ∈ originsIn o.documents .userJourneys "SignIn",
        v.isConsolidated = false ∧ v.isOverride = false ∧
          ∃ w ∈ originsIn o.documents .userJourneys "SignIn", w.depth < v.depth)) = true := by
  decide +kernel

/-- Policies in files of names of their own come to an outcome with a version of the journey from
each. -/
theorem exists_run_layered :
    ∃ o, run {} (layered "derived.xml") = .ok o ∧
      "SignIn" ∈ (o.store.reports .userJourneys).names ∧
      o.documents.map (fun d => (d.fileName, d.policyId)) =
        [("base.xml", "Base"), ("derived.xml", "Derived")] ∧
      (originsIn o.documents .userJourneys "SignIn").map (fun v => (v.depth, v.isOverride)) =
        [(0, false), (1, true)] := by
  obtain ⟨o, hrun, hspec⟩ := exists_eq_ok_of_any layeredOutcome_spec.1
  exact ⟨o, (run_layered _).trans hrun, of_decide_eq_true hspec⟩

/-- Of files by these names, none has a policy named like the consolidated one. -/
theorem policyId_ne_of_map_eq {documents : List Document}
    (h : documents.map (fun d => (d.fileName, d.policyId)) =
      [("base.xml", "Base"), ("derived.xml", "Derived")]) :
    ∀ d ∈ documents, d.policyId ≠ consolidatedPolicyId := by
  intro d hd heq
  have hmem := List.mem_map_of_mem (f := fun d : Document => (d.fileName, d.policyId)) hd
  rw [h, heq] at hmem
  simp [consolidatedPolicyId] at hmem

end Processing
end TrustFramework
