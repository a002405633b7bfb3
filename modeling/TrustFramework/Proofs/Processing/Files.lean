import Mathlib.Data.List.Basic
import TrustFramework.Processing
import TrustFramework.Proofs.Fallible
import TrustFramework.Proofs.Inheritance.Chain
import TrustFramework.Proofs.Value

/-!
# From files to documents

Each file of a set is read on its own.  It becomes a document if its text is one and none of its
problems is an error; all that is said about it begins with its name.  One kind of text stops the
whole set: one that refers to content outside of it.

What comes after that sees nothing but the documents.  The remarks on the files stand in front of
the other warnings and change nothing else.

## Main definitions

* `PolicyFile.IsAccepted`, `PolicyFile.RefersOutside` — files that are read, and files that stop
  everything.
* `PolicyFile.document?`, `PolicyFile.remarks` — what a file gives.
* `PolicyFile.ofPolicy` — a file with a policy.

## Main results

* `Processing.run_eq` — **a set of files comes to what its documents come to.**
* `Processing.run_of_refersOutside` — one text that refers to content outside of it stops all.
* `Processing.of_run_eq_ok` — what is known of a set that comes to an outcome.
* `Processing.ofDocuments_eq` — remarks stand in front of the warnings, and nothing depends on
  them.
* `Processing.ofDocuments_ne_outsideContent` — documents do not refer to content outside.
-/

namespace TrustFramework

/-! ### Files -/

namespace PolicyFile

/-- A file of which the text is a document without an error among its problems. -/
def IsAccepted (file : PolicyFile) : Prop :=
  ∃ tree, Policy.Tree.parse file.content = .ok tree ∧
    Policy.isValid (Policy.validate tree file.name) = true

/-- The text of a file refers to content outside of it. -/
def RefersOutside (file : PolicyFile) : Prop :=
  Policy.Tree.parse file.content = .error .outsideContent

/-- The document of a file that is accepted. -/
def document? (file : PolicyFile) : Option Document :=
  match Policy.Tree.parse file.content with
  | .error _ => none
  | .ok tree =>
    if Policy.isValid (Policy.validate tree file.name) then
      some (Processing.documentOf file tree)
    else none

/-- What is said about a file: why its text is no document, or which problems it has. -/
def remarks (file : PolicyFile) : List String :=
  match Policy.Tree.parse file.content with
  | .error fault => [Processing.about file.name fault.message]
  | .ok tree =>
    (Policy.validate tree file.name).map fun p => Processing.about file.name p.message

variable {file : PolicyFile}

theorem document?_isSome_iff : file.document?.isSome ↔ file.IsAccepted := by
  unfold document? IsAccepted
  cases Policy.Tree.parse file.content <;> simp

theorem document?_eq_some {tree : Value} (hparse : Policy.Tree.parse file.content = .ok tree)
    (hvalid : Policy.isValid (Policy.validate tree file.name) = true) :
    file.document? = some (Processing.documentOf file tree) := by
  unfold document?
  rw [hparse]
  exact if_pos hvalid

theorem document?_eq_none_iff : file.document? = none ↔ ¬ file.IsAccepted := by
  rw [← document?_isSome_iff, Option.not_isSome_iff_eq_none]

theorem not_refersOutside_of_isAccepted (h : file.IsAccepted) : ¬ file.RefersOutside := by
  obtain ⟨tree, hparse, -⟩ := h
  simp [RefersOutside, hparse]

theorem exists_about_of_mem_remarks {remark : String} (h : remark ∈ file.remarks) :
    ∃ text, remark = Processing.about file.name text := by
  unfold remarks at h
  split at h
  · exact ⟨_, List.mem_singleton.mp h⟩
  · obtain ⟨p, -, rfl⟩ := List.mem_map.mp h
    exact ⟨_, rfl⟩

/-- Something is said about every file that is not accepted. -/
theorem remarks_ne_nil (h : ¬ file.IsAccepted) : file.remarks ≠ [] := by
  unfold remarks
  split
  · simp
  · next tree hparse =>
    intro hnone
    refine h ⟨tree, hparse, ?_⟩
    rw [List.map_eq_nil_iff.mp hnone]
    rfl

end PolicyFile

namespace Processing

variable {settings : ConsolidationSettings} {files : List PolicyFile} {file : PolicyFile}
  {documents : List Document} {o : Outcome}

/-! ### Reading -/

theorem load_of_refersOutside (h : file.RefersOutside) : load file = .error .outsideContent := by
  unfold load
  rw [h]

/-- A file that stops nothing gives its document and the remarks on it. -/
theorem exists_load_eq (h : ¬ file.RefersOutside) :
    ∃ failures, load file = .ok ⟨file.document?, file.remarks, failures⟩ := by
  unfold load PolicyFile.document? PolicyFile.remarks
  unfold PolicyFile.RefersOutside at h
  cases hparse : Policy.Tree.parse file.content with
  | error fault => cases fault <;> first | exact absurd hparse h | exact ⟨_, rfl⟩
  | ok tree =>
    simp only [List.map_map]
    split
    · exact ⟨_, rfl⟩
    · exact ⟨_, rfl⟩

theorem mapM_load_of_refersOutside (h : ∃ file ∈ files, file.RefersOutside) :
    files.mapM load = .error .outsideContent := by
  induction files with
  | nil => simp at h
  | cons file files ih =>
    rw [List.mapM_cons]
    by_cases hfile : file.RefersOutside
    · rw [load_of_refersOutside hfile]
      rfl
    · obtain ⟨failures, hload⟩ := exists_load_eq hfile
      rw [hload, ih (by simpa [hfile] using h)]
      rfl

/-- Files that stop nothing give their documents and the remarks on them. -/
theorem exists_mapM_load_eq (h : ∀ file ∈ files, ¬ file.RefersOutside) :
    ∃ loaded, files.mapM load = .ok loaded ∧
      loaded.filterMap Loaded.document = files.filterMap PolicyFile.document? ∧
      loaded.flatMap Loaded.warnings = files.flatMap PolicyFile.remarks := by
  induction files with
  | nil => exact ⟨[], rfl, rfl, rfl⟩
  | cons file files ih =>
    rw [List.forall_mem_cons] at h
    obtain ⟨failures, hload⟩ := exists_load_eq h.1
    obtain ⟨loaded, hloaded, hdocuments, hwarnings⟩ := ih h.2
    refine ⟨⟨file.document?, file.remarks, failures⟩ :: loaded, ?_, ?_, ?_⟩
    · rw [List.mapM_cons, hload, hloaded]
      rfl
    · rw [List.filterMap_cons, List.filterMap_cons, hdocuments]
    · rw [List.flatMap_cons, List.flatMap_cons, hwarnings]

/-! ### What a set of files comes to -/

/-- **One text that refers to content outside of it stops all.** -/
theorem run_of_refersOutside (h : ∃ file ∈ files, file.RefersOutside) :
    run settings files = .error .outsideContent := by
  obtain ⟨file, hmem, -⟩ := id h
  have hne : files.isEmpty = false := by
    rw [List.isEmpty_eq_false_iff]
    exact List.ne_nil_of_mem hmem
  unfold run
  rw [mapM_load_of_refersOutside h, hne]
  rfl

/-- A set that nothing stops has no outcome without documents, and else comes to what these come
to. -/
theorem exists_run_eq (h : ∀ file ∈ files, ¬ file.RefersOutside) :
    ∃ fault, run settings files =
      if (files.filterMap PolicyFile.document?).isEmpty then .error fault
      else orderByInheritance (files.filterMap PolicyFile.document?) >>=
        ofDocuments settings (files.flatMap PolicyFile.remarks) := by
  obtain ⟨loaded, hloaded, hdocuments, hwarnings⟩ := exists_mapM_load_eq h
  unfold run
  rw [hloaded, ← hdocuments, ← hwarnings]
  obtain _ | ⟨file, files⟩ := files
  · cases hloaded
    exact ⟨_, rfl⟩
  refine ⟨.noSoundFile (loaded.flatMap Loaded.failures), ?_⟩
  by_cases hnone : (loaded.filterMap Loaded.document).isEmpty
  · rw [if_pos hnone]
    simp only [List.isEmpty_cons, bind, Except.bind, hnone]
    rfl
  · simp only [List.isEmpty_cons, bind, Except.bind, hnone]
    rfl

/-- Files of which one is accepted have documents. -/
theorem isEmpty_documents (haccepted : ∃ file ∈ files, file.IsAccepted) :
    (files.filterMap PolicyFile.document?).isEmpty = false := by
  obtain ⟨file, hmem, hfile⟩ := haccepted
  obtain ⟨d, hd⟩ := Option.isSome_iff_exists.mp (PolicyFile.document?_isSome_iff.mpr hfile)
  rw [List.isEmpty_eq_false_iff]
  exact List.ne_nil_of_mem (List.mem_filterMap.mpr ⟨file, hmem, hd⟩)

/-- **A set of files comes to what its documents come to**, if it has any. -/
theorem run_eq (h : ∀ file ∈ files, ¬ file.RefersOutside)
    (haccepted : ∃ file ∈ files, file.IsAccepted) :
    run settings files = orderByInheritance (files.filterMap PolicyFile.document?) >>=
      ofDocuments settings (files.flatMap PolicyFile.remarks) := by
  obtain ⟨fault, hrun⟩ := exists_run_eq h
  rw [hrun, isEmpty_documents haccepted]
  rfl

/-- Files that all have documents come to what these come to. -/
theorem run_eq_of_map_document? (hne : documents ≠ [])
    (h : files.map PolicyFile.document? = documents.map some) :
    run settings files = orderByInheritance documents >>=
      ofDocuments settings (files.flatMap PolicyFile.remarks) := by
  have haccepted : ∀ file ∈ files, file.IsAccepted := fun file hfile => by
    have hmem := List.mem_map_of_mem (f := PolicyFile.document?) hfile
    rw [h] at hmem
    obtain ⟨d, -, hd⟩ := List.mem_map.mp hmem
    exact PolicyFile.document?_isSome_iff.mp (by rw [← hd]; rfl)
  have hdocuments : files.filterMap PolicyFile.document? = documents := calc
    files.filterMap PolicyFile.document? = (files.map PolicyFile.document?).filterMap id := by
      rw [List.filterMap_map, Function.id_comp]
    _ = documents := by
      rw [h, List.filterMap_map, Function.id_comp, List.filterMap_some]
  have hsome : ∃ file, file ∈ files := List.exists_mem_of_ne_nil files fun hnil => by
    rw [hnil] at h
    exact hne (List.map_eq_nil_iff.mp h.symm)
  rw [run_eq (fun file hfile => PolicyFile.not_refersOutside_of_isAccepted (haccepted file hfile))
    (hsome.imp fun file hfile => ⟨hfile, haccepted file hfile⟩), hdocuments]

/-- A set that comes to an outcome has documents in the order of inheritance, and comes to what
these come to. -/
theorem of_run_eq_ok (h : run settings files = .ok o) :
    ∃ ordered, orderByInheritance (files.filterMap PolicyFile.document?) = .ok ordered ∧
      ofDocuments settings (files.flatMap PolicyFile.remarks) ordered = .ok o := by
  by_cases hread : ∃ file ∈ files, file.RefersOutside
  · rw [run_of_refersOutside hread] at h
    cases h
  push Not at hread
  obtain ⟨fault, hrun⟩ := exists_run_eq hread
  rw [h] at hrun
  split at hrun
  · cases hrun
  · exact bind_eq_ok_iff.mp hrun.symm

/-! ### What documents come to -/

/-- The steps that documents go through on their way to an outcome. -/
theorem ofDocuments_eq_ok_iff {remarks : List String} :
    ofDocuments settings remarks documents = .ok o ↔
      ∃ store tree xml graphs,
        (extracted documents).resolve settings.fileName documents.length = .ok store ∧
        Policy.consolidate (documents.map Document.tree) = .ok tree ∧
        Policy.Tree.serialize tree = .ok xml ∧ drawn tree store settings = .ok graphs ∧
        o = ⟨xml, store, graphs.1, graphs.2.1, documents, Hierarchy.ofDocuments documents,
          remarks ++ graphs.2.2⟩ := by
  simp only [ofDocuments, bind_eq_ok_iff]
  constructor
  · rintro ⟨store, hstore, tree, htree, xml, hxml, ⟨graph, subgraphs, more⟩, hdrawn, ho⟩
    exact ⟨store, tree, xml, _, hstore, htree, hxml, hdrawn, (Except.ok.inj ho).symm⟩
  · rintro ⟨store, tree, xml, graphs, hstore, htree, hxml, hdrawn, rfl⟩
    exact ⟨store, hstore, tree, htree, xml, hxml, graphs, hdrawn, rfl⟩

/-- Documents without an outcome fail in one of the steps. -/
theorem ofDocuments_eq_error_iff {remarks : List String} {fault : Policy.Fault} :
    ofDocuments settings remarks documents = .error fault ↔
      (extracted documents).resolve settings.fileName documents.length = .error fault ∨
      ∃ store, (extracted documents).resolve settings.fileName documents.length = .ok store ∧
        (Policy.consolidate (documents.map Document.tree) = .error fault ∨
        ∃ tree, Policy.consolidate (documents.map Document.tree) = .ok tree ∧
          (Policy.Tree.serialize tree = .error fault ∨
          ∃ xml, Policy.Tree.serialize tree = .ok xml ∧
            drawn tree store settings = .error fault)) := by
  simp [ofDocuments, bind_eq_error_iff, pure, Except.pure]

/-- **Remarks stand in front of the warnings, and nothing depends on them.** -/
theorem ofDocuments_eq (remarks : List String) :
    ofDocuments settings remarks documents =
      (ofDocuments settings [] documents).map fun o =>
        { o with warnings := remarks ++ o.warnings } := by
  cases h : ofDocuments settings [] documents with
  | error fault => exact ofDocuments_eq_error_iff.mpr (ofDocuments_eq_error_iff.mp h)
  | ok o =>
    obtain ⟨store, tree, xml, graphs, hstore, htree, hxml, hdrawn, rfl⟩ :=
      ofDocuments_eq_ok_iff.mp h
    exact ofDocuments_eq_ok_iff.mpr ⟨store, tree, xml, graphs, hstore, htree, hxml, hdrawn, rfl⟩

end Processing

/-! ### Faults of documents -/

theorem orderByInheritance_ne_outsideContent (documents : List Document) :
    orderByInheritance documents ≠ .error .outsideContent := by
  intro h
  have houtcome := orderByInheritance_isOutcome documents
  rw [h] at houtcome
  exact houtcome

theorem Profiles.exists_cycle_of_circleFault? {profiles : Profiles} {bound : Nat}
    {trail : List String} {v : Version TechnicalProfile} {fault : Policy.Fault}
    (h : profiles.circleFault? bound trail v = some fault) : ∃ ids, fault = .cycle ids := by
  induction bound generalizing trail v with
  | zero => cases h
  | succ bound ih =>
    rw [circleFault?] at h
    split at h
    · cases h
    split at h
    · exact ⟨_, (Option.some.inj h).symm⟩
    split at h
    · cases h
    · exact ih h

theorem Profiles.checkIncludes_ne_outsideContent (profiles : Profiles) :
    profiles.checkIncludes ≠ .error .outsideContent := by
  rw [checkIncludes]
  cases hunresolved : profiles.values.flatten.findSome? profiles.unresolvedFault? with
  | some fault =>
    obtain ⟨v, -, hv⟩ := List.exists_of_findSome?_eq_some hunresolved
    simp only [unresolvedFault?] at hv
    split at hv
    · cases hv
    obtain ⟨included, -, hfault⟩ := Option.bind_eq_some_iff.mp hv
    split at hfault <;> cases hfault
    simp
  | none =>
    cases hcircle : profiles.names.findSome? profiles.circleFrom? with
    | none => simp
    | some fault =>
      obtain ⟨id, -, hid⟩ := List.exists_of_findSome?_eq_some hcircle
      obtain ⟨v, -, hv⟩ := Option.bind_eq_some_iff.mp hid
      obtain ⟨ids, rfl⟩ := exists_cycle_of_circleFault? hv
      simp

theorem Store.resolve_ne_outsideContent (store : Store) (fileName : String) (fileCount : Int) :
    store.resolve fileName fileCount ≠ .error .outsideContent := by
  intro h
  rcases bind_eq_error_iff.mp h with h | ⟨checked, -, h⟩
  · rcases bind_eq_error_iff.mp h with h | ⟨_, -, h⟩
    · exact Profiles.checkIncludes_ne_outsideContent _ h
    · cases h
  · rw [withConsolidated] at h
    split at h <;> cases h

theorem Policy.policyRoot?_ne_outsideContent (tree : Value) :
    policyRoot? tree ≠ .error .outsideContent := by
  unfold policyRoot?
  split <;> simp

theorem Policy.consolidate_ne_outsideContent (trees : List Value) :
    consolidate trees ≠ .error .outsideContent := by
  intro h
  obtain _ | ⟨first, rest⟩ := trees
  · cases h
  rcases bind_eq_error_iff.mp h with h | ⟨base, -, h⟩
  · exact policyRoot?_ne_outsideContent first h
  rcases bind_eq_error_iff.mp h with h | ⟨derived, -, h⟩
  · obtain ⟨tree, -, h⟩ := exists_of_mapM_eq_error h
    exact policyRoot?_ne_outsideContent tree h
  · cases h

namespace Processing

/-- **Documents do not refer to content outside.** -/
theorem ofDocuments_ne_outsideContent (remarks : List String) :
    ofDocuments settings remarks documents ≠ .error .outsideContent := by
  intro h
  rcases ofDocuments_eq_error_iff.mp h with h | ⟨store, -, h | ⟨tree, -, h | ⟨xml, -, h⟩⟩⟩
  · exact Store.resolve_ne_outsideContent _ _ _ h
  · exact Policy.consolidate_ne_outsideContent _ h
  · unfold Policy.Tree.serialize at h
    split at h <;> cases h
  · unfold drawn at h
    split at h
    · cases h
    · next fault hfault =>
      split at h
      · cases h
        unfold Atlas.drawAll at hfault
        split at hfault
        · cases hfault
        split at hfault <;> cases hfault
      · cases h

end Processing

/-! ### Some files -/

namespace PolicyFile

/-- A text with a policy that defines the journey `SignIn`, on top of a base or of nothing. -/
def policyText (policyId : String) (base : Option String) : String :=
  "<TrustFrameworkPolicy PolicyId=\"" ++ policyId ++ "\">" ++
    (base.map fun id => "<BasePolicy><PolicyId>" ++ id ++ "</PolicyId></BasePolicy>").getD "" ++
    "<UserJourneys><UserJourney Id=\"SignIn\"/></UserJourneys></TrustFrameworkPolicy>"

/-- The tree of such a text. -/
def policyTree (policyId : String) (base : Option String) : Value :=
  .object [(Policy.rootName, .object (
    ("@_PolicyId", .text policyId) ::
    (base.map fun id => ("BasePolicy", .object [("PolicyId", .text id)])).toList ++
    [("UserJourneys", .object [("UserJourney", .list [.object [("@_Id", .text "SignIn")]])])]))]

/-- A file with such a text. -/
def ofPolicy (name policyId : String) (base : Option String) : PolicyFile where
  name
  content := policyText policyId base
  uploadedAt := "2024-01-15T10:30:00Z"

/-- The document of such a file. -/
def policyDocument (name policyId : String) (base : Option String) : Document :=
  Processing.documentOf (ofPolicy name policyId base) (policyTree policyId base)

theorem document?_ofPolicy {name policyId : String} {base : Option String}
    (hparse : Policy.Tree.parse (policyText policyId base) = .ok (policyTree policyId base))
    (hvalid : Policy.isValid (Policy.validate (policyTree policyId base) name) = true) :
    (ofPolicy name policyId base).document? = some (policyDocument name policyId base) :=
  document?_eq_some hparse hvalid

/-- A file with a base policy. -/
def base : PolicyFile := ofPolicy "base.xml" "Base" none

/-- A file with a policy on top of the base policy. -/
def derived (name : String) : PolicyFile := ofPolicy name "Derived" (some "Base")

/-- A file with a policy that has no identifier. -/
def draft : PolicyFile := ⟨"draft.xml", "<TrustFrameworkPolicy/>", "2024-01-15T10:30:00Z"⟩

/-- A file with a reference to what nothing but the document type outside of it may tell. -/
def outside : PolicyFile :=
  ⟨"notes.xml", "<!DOCTYPE a SYSTEM \"a.dtd\"><a>&b;</a>", "2024-01-15T10:30:00Z"⟩

/-- What is read of these texts. -/
theorem parse_samples :
    Policy.Tree.parse (policyText "Base" none) = .ok (policyTree "Base" none) ∧
    Policy.Tree.parse (policyText "Derived" (some "Base")) =
      .ok (policyTree "Derived" (some "Base")) ∧
    Policy.Tree.parse draft.content = .ok (.object [(Policy.rootName, .object [])]) ∧
    Policy.Tree.parse outside.content = .error .outsideContent := by
  decide +kernel

theorem document?_base : base.document? = some (policyDocument "base.xml" "Base" none) :=
  document?_ofPolicy parse_samples.1 (by decide)

theorem document?_derived (name : String) :
    (derived name).document? = some (policyDocument name "Derived" (some "Base")) :=
  document?_ofPolicy parse_samples.2.1 rfl

theorem document?_draft : draft.document? = none := by
  unfold document?
  rw [parse_samples.2.2.1]
  rfl

theorem base_isAccepted : base.IsAccepted :=
  document?_isSome_iff.mp (by rw [document?_base]; rfl)

theorem draft_not_refersOutside : ¬ draft.RefersOutside := by
  rw [RefersOutside, parse_samples.2.2.1]
  simp

theorem outside_refersOutside : outside.RefersOutside := parse_samples.2.2.2

end PolicyFile
end TrustFramework
