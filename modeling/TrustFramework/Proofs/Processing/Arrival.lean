import TrustFramework.Proofs.Processing.Files

/-!
# In whatever order files arrive

Files are read one by one, so that the order in which they arrive is the order of their documents
and of the remarks on them, and of nothing else.  Where the documents form one chain, putting them
in the order of inheritance forgets how they came; and what they come to sees that order alone.

## Main definitions

* `Policy.Fault.IsAlike` — faults of one kind.
* `Processing.AgreeButForOrder` — outcomes that differ in the order of their warnings at most.

## Main results

* `Processing.run_of_perm` — **files of which the documents form one chain come to the same
  outcome in whatever order they arrive.**
-/

namespace TrustFramework

/-- Faults of one kind: the same fault, or policies in a circle on both sides. -/
def Policy.Fault.IsAlike (fault other : Policy.Fault) : Prop :=
  fault = other ∨ ∃ circle circle', fault = .cycle circle ∧ other = .cycle circle'

namespace Processing

open Document

/-- Two runs come to the same outcome but for the order of the warnings, or fail alike. -/
inductive AgreeButForOrder : Except Policy.Fault Outcome → Except Policy.Fault Outcome → Prop
  | ok {o o' : Outcome} (warnings : o.warnings.Perm o'.warnings)
      (others : { o with warnings := o'.warnings } = o') : AgreeButForOrder (.ok o) (.ok o')
  | error {fault fault' : Policy.Fault} (alike : fault.IsAlike fault') :
      AgreeButForOrder (.error fault) (.error fault')

variable {settings : ConsolidationSettings} {files others : List PolicyFile}

/-- What documents come to does not depend on the order of the remarks. -/
theorem agreeButForOrder_ofDocuments {remarks remarks' : List String}
    (hperm : remarks.Perm remarks') (documents : List Document) :
    AgreeButForOrder (ofDocuments settings remarks documents)
      (ofDocuments settings remarks' documents) := by
  rw [ofDocuments_eq remarks, ofDocuments_eq remarks']
  cases ofDocuments settings [] documents with
  | error fault => exact .error (Or.inl rfl)
  | ok o => exact .ok (hperm.append_right o.warnings) rfl

/-- A chain has a document, and so the files have one that is accepted. -/
theorem exists_isAccepted_of_formChain (h : FormChain (files.filterMap PolicyFile.document?)) :
    ∃ file ∈ files, file.IsAccepted := by
  obtain ⟨d, hd, -⟩ := List.mem_map.mp h.root
  obtain ⟨file, hfile, hdocument⟩ := List.mem_filterMap.mp hd
  exact ⟨file, hfile, PolicyFile.document?_isSome_iff.mp (by rw [hdocument]; rfl)⟩

/-- **Files of which the documents form one chain come to the same outcome in whatever order they
arrive**, with the same warnings in perhaps another order.  Where they come to no outcome, they
fail in the same way. -/
theorem run_of_perm (settings : ConsolidationSettings) (hperm : files.Perm others)
    (hchain : FormChain (files.filterMap PolicyFile.document?)) :
    AgreeButForOrder (run settings files) (run settings others) := by
  by_cases houtside : ∃ file ∈ files, file.RefersOutside
  · have houtside' : ∃ file ∈ others, file.RefersOutside := by
      obtain ⟨file, hfile, houtside⟩ := houtside
      exact ⟨file, hperm.mem_iff.mp hfile, houtside⟩
    rw [run_of_refersOutside houtside, run_of_refersOutside houtside']
    exact .error (Or.inl rfl)
  push Not at houtside
  have houtside' : ∀ file ∈ others, ¬ file.RefersOutside := fun file hfile =>
    houtside file (hperm.mem_iff.mpr hfile)
  have hdocuments := hperm.filterMap PolicyFile.document?
  rw [run_eq houtside (exists_isAccepted_of_formChain hchain),
    run_eq houtside' (exists_isAccepted_of_formChain (hchain.perm hdocuments))]
  obtain ⟨ordered, horder, horder'⟩ | ⟨circle, circle', horder, horder'⟩ :=
    hchain.orderByInheritance_of_perm hdocuments
  · rw [horder, horder']
    exact agreeButForOrder_ofDocuments (hperm.flatMap_right PolicyFile.remarks) ordered
  · rw [horder, horder']
    exact .error (Or.inr ⟨circle, circle', rfl, rfl⟩)

theorem run_of_perm_reversed :
    FormChain ([PolicyFile.base, .draft, .derived "derived.xml"].filterMap PolicyFile.document?) ∧
      AgreeButForOrder (run {} [.base, .draft, .derived "derived.xml"])
        (run {} [.derived "derived.xml", .draft, .base]) := by
  have hdocuments : [PolicyFile.base, .draft, .derived "derived.xml"].filterMap
      PolicyFile.document? = [PolicyFile.policyDocument "base.xml" "Base" none,
        PolicyFile.policyDocument "derived.xml" "Derived" (some "Base")] := by
    simp [PolicyFile.document?_base, PolicyFile.document?_draft, PolicyFile.document?_derived]
  have hties : ([PolicyFile.base, .draft, .derived "derived.xml"].filterMap
      PolicyFile.document?).map tie = [("Base", none), ("Derived", some "Base")] := by
    rw [hdocuments]
    decide
  have hchain := formChain_of_ties hties (by decide) (by decide) (by decide) (by decide)
  exact ⟨hchain, run_of_perm {} (List.reverse_perm _).symm hchain⟩

end Processing
end TrustFramework
