import TrustFramework.Proofs.Processing.Files

/-!
# A file that is no policy among others

A file that is not accepted gives no document, and the others come to what their documents come
to.  So it leaves nothing but the remarks on it, and these stand among the warnings where the file
stands among the files.  A text that refers to content outside of it is the exception: nobody
takes it for a text that is not well formed, and the whole set fails with it.

## Main definitions

* `Processing.IsIsolated` — outcomes that differ in the remarks on one file at most.

## Main results

* `Processing.bad_file_isolated_iff` — **a file that is not accepted changes nothing but the
  warnings, unless it refers to content outside of it.**
* `Processing.outside_reference_spreads` — one that does keeps the others from an outcome.
-/

namespace TrustFramework
namespace Processing

variable {settings : ConsolidationSettings} {before after : List PolicyFile} {bad : PolicyFile}

/-- Two runs fail in the same way, or come to outcomes of which the second has some remarks more
among its warnings and differs in nothing else. -/
inductive IsIsolated (remarks : List String) :
    Except Policy.Fault Outcome → Except Policy.Fault Outcome → Prop
  | ok {o o' : Outcome} {earlier later : List String} (warnings : o.warnings = earlier ++ later)
      (others : o' = { o with warnings := earlier ++ remarks ++ later }) :
      IsIsolated remarks (.ok o) (.ok o')
  | error {fault : Policy.Fault} : IsIsolated remarks (.error fault) (.error fault)

/-- Remarks that are put among the others do nothing else. -/
theorem isIsolated_ofDocuments (earlier remarks later : List String) (documents : List Document) :
    IsIsolated remarks (ofDocuments settings (earlier ++ later) documents)
      (ofDocuments settings (earlier ++ (remarks ++ later)) documents) := by
  rw [ofDocuments_eq (earlier ++ later), ofDocuments_eq (earlier ++ (remarks ++ later))]
  cases ofDocuments settings [] documents with
  | error fault => exact .error
  | ok o => exact .ok (List.append_assoc earlier later o.warnings) (by simp)

theorem mem_inserted_iff {file : PolicyFile} :
    file ∈ before ++ bad :: after ↔ file = bad ∨ file ∈ before ++ after :=
  List.perm_middle.mem_iff.trans List.mem_cons

/-- A file that is not accepted adds its remarks, and no document. -/
theorem isIsolated_run (houtside : ∀ file ∈ before ++ bad :: after, ¬ file.RefersOutside)
    (haccepted : ∃ file ∈ before ++ after, file.IsAccepted) (hbad : ¬ bad.IsAccepted) :
    IsIsolated bad.remarks (run settings (before ++ after))
      (run settings (before ++ bad :: after)) := by
  have haccepted' : ∃ file ∈ before ++ bad :: after, file.IsAccepted := by
    obtain ⟨file, hfile, h⟩ := haccepted
    exact ⟨file, mem_inserted_iff.mpr (Or.inr hfile), h⟩
  have hdocuments : (before ++ bad :: after).filterMap PolicyFile.document? =
      (before ++ after).filterMap PolicyFile.document? := by
    rw [List.filterMap_append, List.filterMap_append,
      List.filterMap_cons_none (PolicyFile.document?_eq_none_iff.mpr hbad)]
  rw [run_eq (fun file hfile => houtside file (mem_inserted_iff.mpr (Or.inr hfile))) haccepted,
    run_eq houtside haccepted', hdocuments]
  cases orderByInheritance ((before ++ after).filterMap PolicyFile.document?) with
  | error fault => exact .error
  | ok ordered =>
    rw [List.flatMap_append, List.flatMap_append, List.flatMap_cons]
    exact isIsolated_ofDocuments _ _ _ ordered

/-- Without a text that refers to content outside of it, no run fails as one with such a text. -/
theorem run_ne_outsideContent (houtside : ∀ file ∈ before ++ after, ¬ file.RefersOutside)
    (haccepted : ∃ file ∈ before ++ after, file.IsAccepted) :
    run settings (before ++ after) ≠ .error .outsideContent := by
  rw [run_eq houtside haccepted]
  intro h
  rcases bind_eq_error_iff.mp h with h | ⟨ordered, -, h⟩
  · exact orderByInheritance_ne_outsideContent _ h
  · exact ofDocuments_ne_outsideContent _ h

/-- A text that refers to content outside of it is not isolated from files of which none does. -/
theorem not_isIsolated_run (houtside : bad.RefersOutside)
    (hothers : ∀ file ∈ before ++ after, ¬ file.RefersOutside)
    (haccepted : ∃ file ∈ before ++ after, file.IsAccepted) (remarks : List String) :
    ¬ IsIsolated remarks (run settings (before ++ after))
      (run settings (before ++ bad :: after)) := by
  intro hisolated
  rw [run_of_refersOutside ⟨bad, mem_inserted_iff.mpr (Or.inl rfl), houtside⟩] at hisolated
  generalize hrest : run settings (before ++ after) = rest at hisolated
  cases hisolated
  exact run_ne_outsideContent hothers haccepted hrest

/-- **A file that is not accepted is isolated**: wherever it stands among others of which one is
accepted, these come to the same outcome, or fail in the same way, and its remarks, each of which
begins with its name, stand among the warnings.  The exception is a file that refers to content
outside of it, if no other one does. -/
theorem bad_file_isolated_iff (settings : ConsolidationSettings) (before after : List PolicyFile)
    {bad : PolicyFile} (haccepted : ∃ file ∈ before ++ after, file.IsAccepted)
    (hbad : ¬ bad.IsAccepted) :
    bad.remarks ≠ [] ∧
      (∀ remark ∈ bad.remarks, ∃ text, remark = about bad.name text) ∧
      (IsIsolated bad.remarks (run settings (before ++ after))
          (run settings (before ++ bad :: after)) ↔
        (bad.RefersOutside → ∃ file ∈ before ++ after, file.RefersOutside)) := by
  refine ⟨PolicyFile.remarks_ne_nil hbad, fun _ => PolicyFile.exists_about_of_mem_remarks, ?_, ?_⟩
  · intro hisolated houtside
    by_contra hothers
    push Not at hothers
    exact not_isIsolated_run houtside hothers haccepted _ hisolated
  · intro h
    by_cases hothers : ∃ file ∈ before ++ after, file.RefersOutside
    · obtain ⟨file, hfile, houtside⟩ := id hothers
      rw [run_of_refersOutside hothers,
        run_of_refersOutside ⟨file, mem_inserted_iff.mpr (Or.inr hfile), houtside⟩]
      exact .error
    · refine isIsolated_run (fun file hfile houtside => ?_) haccepted hbad
      rcases mem_inserted_iff.mp hfile with rfl | hfile
      · exact hothers (h houtside)
      · exact hothers ⟨file, hfile, houtside⟩

theorem bad_file_isolated_draft :
    (∃ file ∈ [PolicyFile.base, .derived "derived.xml"], file.IsAccepted) ∧
      ¬ PolicyFile.draft.IsAccepted ∧
      IsIsolated PolicyFile.draft.remarks (run {} [.base, .derived "derived.xml"])
        (run {} [.base, .draft, .derived "derived.xml"]) := by
  have haccepted : ∃ file ∈ [PolicyFile.base] ++ [.derived "derived.xml"], file.IsAccepted :=
    ⟨.base, List.mem_cons_self, PolicyFile.base_isAccepted⟩
  have hbad := PolicyFile.document?_eq_none_iff.mp PolicyFile.document?_draft
  have hisolated := (bad_file_isolated_iff {} [.base] [.derived "derived.xml"] haccepted
    hbad).2.2.mpr fun houtside => absurd houtside PolicyFile.draft_not_refersOutside
  exact ⟨haccepted, hbad, hisolated⟩

/-- **A text that refers to content outside of it keeps the others from an outcome.** -/
theorem outside_reference_spreads :
    ¬ ∀ (settings : ConsolidationSettings) (before after : List PolicyFile) (bad : PolicyFile),
      (∃ file ∈ before ++ after, file.IsAccepted) → ¬ bad.IsAccepted →
      IsIsolated bad.remarks (run settings (before ++ after))
        (run settings (before ++ bad :: after)) := by
  intro h
  have houtside := PolicyFile.outside_refersOutside
  have haccepted : ∃ file ∈ [] ++ [PolicyFile.base], file.IsAccepted :=
    ⟨.base, List.mem_cons_self, PolicyFile.base_isAccepted⟩
  have hothers : ∀ file ∈ [] ++ [PolicyFile.base], ¬ file.RefersOutside :=
    List.forall_mem_singleton.mpr
      (PolicyFile.not_refersOutside_of_isAccepted PolicyFile.base_isAccepted)
  exact not_isIsolated_run houtside hothers haccepted _ (h {} [] [.base] .outside haccepted
    (mt PolicyFile.not_refersOutside_of_isAccepted (not_not_intro houtside)))

end Processing
end TrustFramework
