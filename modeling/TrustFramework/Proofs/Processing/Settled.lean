import TrustFramework.Proofs.Processing.Provenance

/-!
# The version of a thing that counts

Processing leaves, of every thing, the versions of its documents from the most basic one on, and
behind them one version that all of them amount to, which is the one that counts.  That version is
told from the others by the name of its policy alone.  So a document whose policy has this name is
the exception: its own versions are taken for what they amount to, the things that no other
document defines gain no version, and of the others the version of the document counts.

## Main results

* `Processing.versions_settled_iff` — **the versions of a thing are settled, unless a document that
  defines it has a policy named like the consolidated one.**
* `Processing.versions_unsettled` — such a document.
-/

namespace TrustFramework
namespace Processing

variable {settings : ConsolidationSettings} {files : List PolicyFile} {o : Outcome} {kind : Kind}
  {id : String}

/-- Versions that no document is mistaken in are all told from the consolidated one. -/
theorem forall_originsIn_iff {documents : List Document} :
    (∀ v ∈ originsIn documents kind id, v.isConsolidated = false) ↔
      ∀ d ∈ documents, d.Defines kind id → d.policyId ≠ consolidatedPolicyId := by
  constructor
  · intro h d hd hdefines
    obtain ⟨before, after, rfl⟩ := List.append_of_mem hd
    obtain ⟨v, hv, hfrom⟩ := exists_of_defines hdefines before after
    exact hfrom.isConsolidated_eq_false_iff.mp (h v hv)
  · intro h v hv
    obtain ⟨before, d, after, rfl, hfrom⟩ := exists_isFrom hv
    exact hfrom.isConsolidated_eq_false_iff.mpr (h d (by simp) hfrom.defines)

/-- **The versions of a thing in the store of an outcome are settled**: those of the documents, one
or more and none deeper than one behind it, and then the one that counts, of the configured file
name and as deep as there are documents.  The exception is a thing that is defined in a file whose
policy is named like the consolidated one. -/
theorem versions_settled_iff (hrun : run settings files = .ok o)
    (hid : id ∈ (o.store.reports kind).names) :
    (o.store.reports kind).IsSettled (Store.consolidatedSource settings.fileName
        (files.filterMap PolicyFile.document?).length) id ↔
      ∀ file ∈ files, ∀ d ∈ file.document?, d.Defines kind id →
        d.policyId ≠ consolidatedPolicyId := by
  have hperm := documents_perm_of_run hrun
  have hconsolidation := isConsolidation_of_run hrun kind id
  rw [hperm.length_eq] at hconsolidation
  rw [hconsolidation.isSettled_iff rfl (originsIn_ne_nil_of_run hrun hid) pairwise_depth_originsIn,
    forall_originsIn_iff]
  constructor
  · intro h file hfile d hd
    exact h d (hperm.mem_iff.mpr (List.mem_filterMap.mpr ⟨file, hfile, hd⟩))
  · intro h d hd
    obtain ⟨file, hfile, hd⟩ := List.mem_filterMap.mp (hperm.mem_iff.mp hd)
    exact h file hfile d hd

theorem versions_settled_derived :
    ∃ o, run {} (layered "derived.xml") = .ok o ∧
      "SignIn" ∈ (o.store.reports .userJourneys).names ∧
      (∀ file ∈ layered "derived.xml", ∀ d ∈ file.document?, d.policyId ≠ consolidatedPolicyId) ∧
      (o.store.reports .userJourneys).IsSettled
        (Store.consolidatedSource "ConsolidatedPolicy" 2) "SignIn" := by
  obtain ⟨o, hrun, hid, hdocuments, -⟩ := exists_run_layered
  have hperm := documents_perm_of_run hrun
  have hpolicies : ∀ file ∈ layered "derived.xml", ∀ d ∈ file.document?,
      d.policyId ≠ consolidatedPolicyId := fun file hfile d hd =>
    policyId_ne_of_map_eq hdocuments d
      (hperm.mem_iff.mpr (List.mem_filterMap.mpr ⟨file, hfile, hd⟩))
  have hlength : ((layered "derived.xml").filterMap PolicyFile.document?).length = 2 := by
    rw [← hperm.length_eq]
    simpa using congrArg List.length hdocuments
  have hsettled := (versions_settled_iff hrun hid).mpr fun file hfile d hd _ =>
    hpolicies file hfile d hd
  rw [hlength] at hsettled
  exact ⟨o, hrun, hid, hpolicies, hsettled⟩

/-- A base policy that is named like what all policies amount to. -/
def namesake : PolicyFile := .ofPolicy "base.xml" consolidatedPolicyId none

/-- Its text is read for what it says, and its journey has one version. -/
theorem namesake_spec :
    Policy.Tree.parse namesake.content = .ok (PolicyFile.policyTree consolidatedPolicyId none) ∧
    (orderByInheritance [PolicyFile.policyDocument "base.xml" consolidatedPolicyId none] >>=
      ofDocuments {} ([namesake].flatMap PolicyFile.remarks)).toOption.any (fun o : Outcome =>
        decide ("SignIn" ∈ (o.store.reports .userJourneys).names ∧
          ((o.store.reports .userJourneys).versions "SignIn").length = 1)) = true := by
  decide +kernel

/-- **A journey of a policy that is taken for the consolidated one** has no other version. -/
theorem versions_unsettled :
    ¬ ∀ (settings : ConsolidationSettings) (files : List PolicyFile) (o : Outcome) (kind : Kind)
      (id : String), run settings files = .ok o → id ∈ (o.store.reports kind).names →
      (o.store.reports kind).IsSettled (Store.consolidatedSource settings.fileName
        (files.filterMap PolicyFile.document?).length) id := by
  intro h
  have hdocument : namesake.document? =
      some (PolicyFile.policyDocument "base.xml" consolidatedPolicyId none) :=
    PolicyFile.document?_ofPolicy namesake_spec.1 (by decide)
  obtain ⟨o, hrun, hone⟩ := exists_eq_ok_of_any namesake_spec.2
  rw [← run_eq_of_map_document? (List.cons_ne_nil _ _) (by simp [hdocument])] at hrun
  obtain ⟨hid, hlength⟩ := of_decide_eq_true hone
  obtain ⟨extracted, consolidated, hversions, hne, -⟩ := h _ _ _ _ _ hrun hid
  rw [hversions, List.length_append, List.length_singleton] at hlength
  exact hne (List.length_eq_zero_iff.mp (by omega))

end Processing
end TrustFramework
