import TrustFramework.Proofs.Trace.Repetition

/-!
# What is left of a repetition

A repetition of a step is folded into that step: its profiles, options and calls go there.  The
profiles that validated, the transformations, the mappings and the display controls do not, and
nothing is left of them unless the step has them already.

## Main definitions

* `Value.IsAmong` — whether some value of a list is a value.
* `TraceStep.HasFoldedFactsOf`, `TraceStep.HasOtherFactsOf` — the facts about one step that
  another one has as well, by whether folding looks at them.

## Main results

* `TraceStep.hasFoldedFactsOf_absorb` — the facts that folding looks at are all kept.
* `TraceStep.hasOtherFactsOf_absorb_iff` — **others are left as they were.**
* `Rebuilding.facts_of_repetition` — **what is left of a repetition in a run.**
* `Rebuilding.validation_lost` — a profile that validated and is lost.
-/

namespace TrustFramework

/-- Some value of a list is this value, or equal to it. -/
def Value.IsAmong (v : Value) (values : List Value) : Prop :=
  ∃ w ∈ values, w = v ∨ (v == w) = true

theorem Value.isAmong_of_mem {v : Value} {values : List Value} (h : v ∈ values) :
    v.IsAmong values := ⟨v, h, Or.inl rfl⟩

/-! ### Lists without repetition -/

section

variable {values others : List Value} {v : Value}

theorem subset_addNew (values : List Value) (v : Value) : values ⊆ addNew values v := by
  unfold addNew
  split
  · exact List.Subset.refl _
  · exact List.subset_append_left _ _

theorem isAmong_addNew (values : List Value) (v : Value) : v.IsAmong (addNew values v) := by
  unfold addNew
  split
  · next h =>
    obtain ⟨w, hw, heq⟩ := List.contains_iff_exists_mem_beq.mp h
    exact ⟨w, hw, Or.inr heq⟩
  · exact Value.isAmong_of_mem (by simp)

theorem subset_addAllNew (values others : List Value) : values ⊆ addAllNew values others := by
  induction others generalizing values with
  | nil => exact List.Subset.refl _
  | cons v others ih => exact List.Subset.trans (subset_addNew values v) (ih (addNew values v))

theorem Value.IsAmong.mono {v : Value} (h : v.IsAmong values) (hsubset : values ⊆ others) :
    v.IsAmong others := by
  obtain ⟨w, hw, heq⟩ := h
  exact ⟨w, hsubset hw, heq⟩

theorem isAmong_addAllNew (values : List Value) (hv : v ∈ others) :
    v.IsAmong (addAllNew values others) := by
  induction others generalizing values with
  | nil => simp at hv
  | cons w others ih =>
    rcases List.mem_cons.mp hv with rfl | hv
    · exact (isAmong_addNew values v).mono (subset_addAllNew _ others)
    · exact ih (addNew values w) hv

end

/-! ### Facts -/

namespace TraceStep

/-- The facts about one step that another one has as well, of the kinds that folding looks at. -/
structure HasFoldedFactsOf (s again : TraceStep) : Prop where
  profiles : ∀ v ∈ again.profiles, v.IsAmong s.profiles
  details : ∀ d ∈ again.profileDetails,
    ∃ e ∈ s.profileDetails, e.id = d.id ∨ (e.id == d.id) = true
  options : ∀ v ∈ again.options, v.IsAmong s.options
  calls : again.calls ⊆ s.calls
  controlActions : again.controlActions ⊆ s.controlActions

/-- The facts about one step that another one has as well, of all other kinds. -/
structure HasOtherFactsOf (s again : TraceStep) : Prop where
  validationProfiles : ∀ v ∈ again.validationProfiles, v.IsAmong s.validationProfiles
  transformations : ∀ v ∈ again.transformations, v.IsAmong s.transformations
  mappings : again.mappings ⊆ s.mappings
  displayControls : ∀ v ∈ again.displayControls, v.IsAmong s.displayControls

/-- The facts about one step that another one has as well. -/
structure HasFactsOf (s again : TraceStep) : Prop where
  folded : s.HasFoldedFactsOf again
  others : s.HasOtherFactsOf again

/-- The details of a repetition are there, or those of the same profile are. -/
theorem exists_detail_absorb {s again : TraceStep} {d : ProfileDetail}
    (hd : d ∈ again.profileDetails) :
    ∃ e ∈ (s.absorb again).profileDetails, e.id = d.id ∨ (e.id == d.id) = true := by
  by_cases h : s.profileDetails.any fun e => e.id == d.id
  · obtain ⟨e, he, heq⟩ := List.any_eq_true.mp h
    exact ⟨e, List.mem_append_left _ he, Or.inr heq⟩
  · exact ⟨d, List.mem_append_right _ (List.mem_filter.mpr ⟨hd, by simpa using h⟩), Or.inl rfl⟩

/-- **The facts of a repetition that folding looks at** are all there afterwards. -/
theorem hasFoldedFactsOf_absorb (s again : TraceStep) : (s.absorb again).HasFoldedFactsOf again where
  profiles _ hv := isAmong_addAllNew s.profiles hv
  details _ hd := exists_detail_absorb hd
  options _ hv := isAmong_addAllNew s.options hv
  calls := List.subset_append_right _ _
  controlActions := List.subset_append_right _ _

/-- All others are left as they were. -/
theorem hasOtherFactsOf_absorb_iff (s again other : TraceStep) :
    (s.absorb again).HasOtherFactsOf other ↔ s.HasOtherFactsOf other :=
  ⟨fun h => ⟨h.validationProfiles, h.transformations, h.mappings, h.displayControls⟩,
    fun h => ⟨h.validationProfiles, h.transformations, h.mappings, h.displayControls⟩⟩

/-- Nothing that was known is lost. -/
theorem hasFactsOf_absorb_self (s again : TraceStep) : (s.absorb again).HasFactsOf s where
  folded :=
    { profiles := fun _ hv => Value.isAmong_of_mem (subset_addAllNew _ _ hv)
      details := fun d hd => ⟨d, List.mem_append_left _ hd, Or.inl rfl⟩
      options := fun _ hv => Value.isAmong_of_mem (subset_addAllNew _ _ hv)
      calls := List.subset_append_left _ _
      controlActions := List.subset_append_left _ _ }
  others :=
    { validationProfiles := fun _ hv => Value.isAmong_of_mem hv
      transformations := fun _ hv => Value.isAmong_of_mem hv
      mappings := List.Subset.refl _
      displayControls := fun _ hv => Value.isAmong_of_mem hv }

/-- A repetition leaves all of its facts exactly if nothing of the other kinds is new. -/
theorem hasFactsOf_absorb_iff (s again : TraceStep) :
    (s.absorb again).HasFactsOf again ↔ s.HasOtherFactsOf again :=
  ⟨fun h => (hasOtherFactsOf_absorb_iff s again again).mp h.others,
    fun h => ⟨hasFoldedFactsOf_absorb s again, (hasOtherFactsOf_absorb_iff s again again).mpr h⟩⟩

end TraceStep

/-! ### Repetitions in a run -/

namespace Rebuilding

/-- A step that repeats an earlier one is folded into it. -/
theorem settle_of_repetition {t : Rebuilding} {first again : TraceStep} {place : Nat}
    {time : Timestamp} (hkept : isKept again = true)
    (hseen : t.seen.get? (stepKey again) = some (place, time))
    (hwithin : isWithin t.window time again.timestamp = true)
    (hfirst : t.steps[place]? = some first) :
    t.settle again = { t with steps := t.steps.set place (first.absorb again) } := by
  unfold settle
  rw [if_pos hkept, hseen, Option.filter_some, if_pos hwithin]
  show { t with steps := t.steps.modify place _ } = _
  rw [List.modify_eq_set, hfirst]
  rfl

/-- **What is left of a repetition in a run.**  A step that is closed and repeats an earlier one
within the window is folded into it.  The earlier step keeps all its facts and has the profiles,
details, options, calls and control actions of the repetition as well; it has all facts of the
repetition exactly if it had its validation profiles, transformations, mappings and display
controls before. -/
theorem facts_of_repetition (registry : Registry) (settings : TraceSettings)
    (logs : List LogInput) {before after : List Filing} {again : TraceStep} {place : Nat}
    {time : Timestamp}
    (hfilings : allFilings registry settings logs = before ++ .closed again :: after)
    (hkept : isKept again = true)
    (hseen : (before.foldl file (behind registry settings logs [])).seen.get? (stepKey again) =
      some (place, time))
    (hwithin : isWithin settings.dedupWindow time again.timestamp = true) :
    let t := before.foldl file (behind registry settings logs [])
    ∃ first, t.steps[place]? = some first ∧ stepKey first = stepKey again ∧
      first.timestamp = time ∧
      (behind registry settings logs (occurrences settings logs)).close.steps =
        (after.foldl file { t with steps := t.steps.set place (first.absorb again) }).steps ∧
      (first.absorb again).HasFactsOf first ∧ (first.absorb again).HasFoldedFactsOf again ∧
      ((first.absorb again).HasFactsOf again ↔ first.HasOtherFactsOf again) := by
  intro t
  have htable := isTable_of_prefix registry settings logs hfilings
  obtain ⟨x, hx, hkey, htime⟩ := htable.places _ place time hseen
  rw [stepTitles, List.getElem?_map] at hx
  obtain ⟨first, hfirst, rfl⟩ := Option.map_eq_some_iff.mp hx
  refine ⟨first, hfirst, hkey, htime, ?_, TraceStep.hasFactsOf_absorb_self _ _,
    TraceStep.hasFoldedFactsOf_absorb _ _, TraceStep.hasFactsOf_absorb_iff _ _⟩
  have hwindow : t.window = settings.dedupWindow := window_foldl_file _ before
  have hsteps := congrArg Prod.fst (book_close_behind registry settings logs)
  rw [hfilings, List.foldl_append, List.foldl_cons] at hsteps
  rw [← settle_of_repetition hkept hseen (hwindow ▸ hwithin) hfirst]
  exact hsteps

/-! ### A validation that is lost -/

/-- The report of a page whose entries a profile validated. -/
def validated : List Clip :=
  [.action Handler.selfAssertedValidation,
    .handlerResult
      { result := true
        records := [⟨"Validation", .object [("Values", .list [.object
          [("Key", .text "ValidationTechnicalProfile"),
            ("Value", .object [("Values", .list [.object
              [("Key", .text "TechnicalProfileId"), ("Value", .text "V")]])])]])]⟩] }]

/-- The group of this report. -/
def validatedGroup : HandlerGroup where
  handler := Handler.selfAssertedValidation
  predicate := none
  result := some
    { result := true
      records := [⟨"Validation", .object [("Values", .list [.object
        [("Key", .text "ValidationTechnicalProfile"),
          ("Value", .object [("Values", .list [.object
            [("Key", .text "TechnicalProfileId"), ("Value", .text "V")]])])]])]⟩] }
  clips := validated
  index := 3

/-- A first step that is repeated at once, by one with a validation. -/
def revisited : List LogInput :=
  [movingLog "a" (after 0) "1" [], movingLog "b" (after 200) "2" [],
    movingLog "c" (after 400) "1" validated]

/-- What happens in these logs. -/
def revisits : List Occurrence :=
  revisited.flatMap fun log => (handlerGroups log.clips).map fun g => .event log (.group g)

theorem supportedLogs_revisited : supportedLogs {} revisited = revisited :=
  List.mergeSort_of_pairwise (by decide)

theorem occurrences_revisited : occurrences {} revisited = revisits := by
  rw [occurrences, supportedLogs_revisited, revisits]
  simp only [revisited, List.flatMap_cons]
  rw [occurrences_eq_groups rfl rfl rfl (by decide),
    occurrences_eq_groups rfl rfl rfl (by decide),
    occurrences_eq_groups rfl rfl rfl (by decide)]
  rfl

/-- The trace in the making behind these logs. -/
def revisiting : Rebuilding := behind (Registry.standard ⟨1000, false⟩) {} revisited revisits

/-- The first step once more, as it is closed at the end. -/
def revisit : TraceStep := (revisiting.snapshot (revisiting.current.getD default)).located

/-- The first step is open once more, with a validation that it did not have before. -/
theorem revisit_spec :
    revisiting.current.isSome = true ∧ isKept revisit = true ∧
      revisiting.seen.get? (stepKey revisit) = some (0, after 0) ∧
      isWithin ⟨1000, false⟩ (after 0) revisit.timestamp = true ∧
      revisiting.steps[0]?.map (fun s => s.validationProfiles.length) = some 0 ∧
      revisit.validationProfiles.length = 1 := by
  have hlast : revisits = revisits.dropLast ++
      [.event (movingLog "c" (after 400) "1" validated) (.group validatedGroup)] := rfl
  rw [revisit, revisiting, hlast,
    behind_append_of_validation (Registry.isStandard_standard _) _ _ rfl rfl, behind,
    supportedLogs_revisited]
  decide

/-- What is filed before it is closed. -/
def beforeRevisit : List Filing :=
  (behind (Registry.standard ⟨1000, false⟩) {} revisited []).filings revisits

theorem allFilings_revisited :
    allFilings (Registry.standard ⟨1000, false⟩) {} revisited =
      beforeRevisit ++ [.closed revisit] := by
  obtain ⟨s, hcurrent⟩ := Option.isSome_iff_exists.mp revisit_spec.1
  have hclosing : revisiting.closing = [.closed revisit] := by
    rw [closing, revisit, hcurrent]
    rfl
  rw [allFilings, occurrences_revisited, beforeRevisit, ← hclosing]
  rfl

theorem book_beforeRevisit :
    (beforeRevisit.foldl file (behind (Registry.standard ⟨1000, false⟩) {} revisited [])).book =
      revisiting.book :=
  (book_foldl_undergo (behind (Registry.standard ⟨1000, false⟩) {} revisited []) revisits).symm

/-- The first step once more is found to repeat the first one. -/
theorem seen_beforeRevisit :
    (beforeRevisit.foldl file (behind (Registry.standard ⟨1000, false⟩) {} revisited [])).seen.get?
      (stepKey revisit) = some (0, after 0) := by
  obtain ⟨-, -, hseen, -⟩ := revisit_spec
  rw [← hseen]
  exact congrArg (fun book => Fields.get? book.2.1 (stepKey revisit)) book_beforeRevisit

/-- What is left of the first step once more. -/
theorem facts_of_revisit :
    let t := beforeRevisit.foldl file (behind (Registry.standard ⟨1000, false⟩) {} revisited [])
    ∃ first, t.steps[0]? = some first ∧ stepKey first = stepKey revisit ∧
      first.timestamp = after 0 ∧
      (behind (Registry.standard ⟨1000, false⟩) {} revisited
          (occurrences {} revisited)).close.steps =
        t.steps.set 0 (first.absorb revisit) ∧
      (first.absorb revisit).HasFactsOf first ∧ (first.absorb revisit).HasFoldedFactsOf revisit ∧
      ((first.absorb revisit).HasFactsOf revisit ↔ first.HasOtherFactsOf revisit) :=
  facts_of_repetition (Registry.standard ⟨1000, false⟩) {} revisited allFilings_revisited
    revisit_spec.2.1 seen_beforeRevisit revisit_spec.2.2.2.1

/-- **A profile that validated and is lost**: that of a repetition of a step without one. -/
theorem validation_lost :
    ¬ ∀ (settings : TraceSettings) (logs : List LogInput) (before after : List Filing)
      (again first : TraceStep) (place : Nat) (time : Timestamp),
      let start := behind (Registry.standard settings.orchestrationReset) settings logs []
      allFilings (Registry.standard settings.orchestrationReset) settings logs =
        before ++ .closed again :: after →
      isKept again = true →
      (before.foldl file start).seen.get? (stepKey again) = some (place, time) →
      isWithin settings.dedupWindow time again.timestamp = true →
      (before.foldl file start).steps[place]? = some first →
      (first.absorb again).HasFactsOf first ∧ (first.absorb again).HasFactsOf again := by
  intro h
  obtain ⟨-, hkept, -, hwithin, hsteps, hvalidated⟩ := revisit_spec
  obtain ⟨first, hfirst, hnone⟩ := Option.map_eq_some_iff.mp hsteps
  have hplace : (beforeRevisit.foldl file
      (behind (Registry.standard ⟨1000, false⟩) {} revisited [])).steps[0]? = some first := by
    rw [← hfirst]
    exact congrArg (fun book => book.1[0]?) book_beforeRevisit
  have hfacts := (h {} revisited beforeRevisit [] revisit first 0 (after 0) allFilings_revisited
    hkept seen_beforeRevisit hwithin hplace).2
  -- the profile that validated is none of the step that was there
  obtain ⟨v, hv⟩ := List.exists_mem_of_length_pos (Nat.lt_of_lt_of_eq Nat.one_pos hvalidated.symm)
  obtain ⟨w, hw, -⟩ := hfacts.others.validationProfiles v hv
  exact absurd hw (List.length_eq_zero_iff.mp hnone ▸ List.not_mem_nil)

end Rebuilding
end TrustFramework
