import TrustFramework.Proofs.Trace.Lasting

/-!
# Facts without repetition

A fact that a step has is not put into it once more.  The profiles that ran, the options, the
profiles that validated, the transformations and the display controls are each told apart by their
own values, and reports about profiles by the profiles they are about.  That holds of a step
however many groups added to it, and whatever repetitions were folded into it.

## Main definitions

* `Value.AreDistinct`, `ProfileDetail.AreDistinct` — lists in which nothing comes twice.
* `TraceStep.HasDistinctFacts` — a step with such lists.

## Main results

* `Findings.hasDistinctFacts_applyTo` — facts are put into a step without repetition.
* `TraceStep.HasDistinctFacts.absorb` — and so is a repetition folded into it.
* `distinct_facts_of_steps` — **no step of a trace has a fact twice.**
-/

namespace TrustFramework

/-! ### Lists without repetition -/

/-- No value of a list is equal to one before it. -/
def Value.AreDistinct (values : List Value) : Prop :=
  values.Pairwise fun v w => (w == v) = false

namespace Value.AreDistinct

variable {values : List Value}

theorem nil : AreDistinct [] := List.Pairwise.nil

theorem addNew (h : AreDistinct values) (v : Value) : AreDistinct (addNew values v) := by
  unfold TrustFramework.addNew
  split
  · exact h
  · next hnew =>
    refine List.pairwise_append.mpr ⟨h, List.pairwise_singleton _ _, fun w hw u hu => ?_⟩
    rw [List.mem_singleton.mp hu, ← Bool.not_eq_true]
    exact fun hequal => hnew (List.contains_iff_exists_mem_beq.mpr ⟨w, hw, hequal⟩)

theorem addAllNew (h : AreDistinct values) (others : List Value) :
    AreDistinct (addAllNew values others) := by
  induction others generalizing values with
  | nil => exact h
  | cons v others ih => exact ih (h.addNew v)

end Value.AreDistinct

/-- No report is about the profile of one before it. -/
def ProfileDetail.AreDistinct (details : List ProfileDetail) : Prop :=
  details.Pairwise fun d e => (d.id == e.id) = false

namespace ProfileDetail.AreDistinct

variable {details : List ProfileDetail}

theorem nil : AreDistinct [] := List.Pairwise.nil

/-- Placing a report leaves the profiles as they are, or adds its own. -/
theorem id_of_mem_placeDetail {more e : ProfileDetail}
    (h : e ∈ TraceStep.placeDetail more details) : (∃ d ∈ details, e.id = d.id) ∨ e = more := by
  fun_induction TraceStep.placeDetail more details with
  | case1 => exact Or.inr (List.mem_singleton.mp h)
  | case2 d rest _ =>
    obtain rfl | h := List.mem_cons.mp h
    · exact Or.inl ⟨d, List.mem_cons_self, rfl⟩
    · exact Or.inl ⟨e, List.mem_cons_of_mem d h, rfl⟩
  | case3 d rest _ ih =>
    obtain rfl | h := List.mem_cons.mp h
    · exact Or.inl ⟨e, List.mem_cons_self, rfl⟩
    · exact (ih h).imp_left fun ⟨d', hd', hid⟩ => ⟨d', List.mem_cons_of_mem d hd', hid⟩

theorem placeDetail (h : AreDistinct details) (more : ProfileDetail) :
    AreDistinct (TraceStep.placeDetail more details) := by
  fun_induction TraceStep.placeDetail more details with
  | case1 => exact List.pairwise_singleton _ _
  | case2 d rest _ =>
    -- the first report of the profile is extended, and keeps its profile
    obtain ⟨hd, hrest⟩ := List.pairwise_cons.mp h
    exact List.pairwise_cons.mpr ⟨hd, hrest⟩
  | case3 d rest hother ih =>
    obtain ⟨hd, hrest⟩ := List.pairwise_cons.mp h
    refine List.pairwise_cons.mpr ⟨fun e he => ?_, ih hrest⟩
    obtain ⟨d', hd', hid⟩ | rfl := id_of_mem_placeDetail he
    · rw [hid]
      exact hd d' hd'
    · rwa [Bool.not_eq_true] at hother

/-- Reports may be put behind others that are about none of their profiles. -/
theorem append_filter (h : AreDistinct details) {others : List ProfileDetail}
    (hothers : AreDistinct others) :
    AreDistinct (details ++ others.filter fun d => !(details.any fun e => e.id == d.id)) := by
  refine List.pairwise_append.mpr ⟨h, hothers.sublist List.filter_sublist, fun e he d hd => ?_⟩
  obtain ⟨-, hnew⟩ := List.mem_filter.mp hd
  rw [Bool.not_eq_true', List.any_eq_false] at hnew
  exact Bool.not_eq_true _ ▸ hnew e he

end ProfileDetail.AreDistinct

/-! ### Steps -/

namespace TraceStep

/-- Nothing comes twice in the lists of a step. -/
structure HasDistinctFacts (s : TraceStep) : Prop where
  profiles : Value.AreDistinct s.profiles
  details : ProfileDetail.AreDistinct s.profileDetails
  options : Value.AreDistinct s.options
  validationProfiles : Value.AreDistinct s.validationProfiles
  transformations : Value.AreDistinct s.transformations
  displayControls : Value.AreDistinct s.displayControls

variable {s : TraceStep}

/-- A step without facts has none twice. -/
theorem hasDistinctFacts_of_bare (h : s.bare = s) : s.HasDistinctFacts := by
  rw [← h]
  exact ⟨.nil, .nil, .nil, .nil, .nil, .nil⟩

theorem hasDistinctFacts_unjudged_iff : s.unjudged.HasDistinctFacts ↔ s.HasDistinctFacts :=
  ⟨fun h => { h with }, fun h => { h with }⟩

theorem hasDistinctFacts_unmoved_iff : s.unmoved.HasDistinctFacts ↔ s.HasDistinctFacts :=
  ⟨fun h => { h with }, fun h => { h with }⟩

theorem HasDistinctFacts.placed (h : s.HasDistinctFacts) : s.placed.HasDistinctFacts := by
  unfold TraceStep.placed
  split
  · exact { h with }
  · exact h

theorem HasDistinctFacts.located (h : s.HasDistinctFacts) : s.located.HasDistinctFacts := by
  unfold TraceStep.located
  split
  · exact h.placed
  · exact h

section

variable (h : s.HasDistinctFacts)
include h

theorem HasDistinctFacts.clearOptions : s.clearOptions.HasDistinctFacts :=
  { h with options := .nil }

theorem HasDistinctFacts.addProfiles (ids : List Value) : (s.addProfiles ids).HasDistinctFacts :=
  { h with profiles := h.profiles.addAllNew ids }

theorem HasDistinctFacts.addDetail (d : ProfileDetail) : (s.addDetail d).HasDistinctFacts :=
  { h with details := h.details.placeDetail d }

theorem HasDistinctFacts.addOptions (options : List Value) :
    (s.addOptions options).HasDistinctFacts :=
  { h with options := h.options.addAllNew options }

theorem HasDistinctFacts.addCall (call : BackendCall) : (s.addCall call).HasDistinctFacts :=
  { h with }

theorem HasDistinctFacts.addTransformations (ids : List Value) :
    (s.addTransformations ids).HasDistinctFacts :=
  { h with transformations := h.transformations.addAllNew ids }

theorem HasDistinctFacts.addTransformationDetail (d : TransformationDetail) :
    (s.addTransformationDetail d).HasDistinctFacts :=
  { h with transformations := h.transformations.addNew d.id }

theorem HasDistinctFacts.addValidationProfiles (ids : List Value) :
    (s.addValidationProfiles ids).HasDistinctFacts :=
  { h with validationProfiles := h.validationProfiles.addAllNew ids }

theorem HasDistinctFacts.addMappings (mappings : List ClaimMapping) :
    (s.addMappings mappings).HasDistinctFacts :=
  { h with }

theorem HasDistinctFacts.addControlAction (a : ControlAction) :
    (s.addControlAction a).HasDistinctFacts :=
  { h with displayControls := h.displayControls.addNew _ }

end

/-- What puts facts into a step without repetition does so any number of times. -/
theorem HasDistinctFacts.foldl {α : Type} (h : s.HasDistinctFacts) {f : TraceStep → α → TraceStep}
    (hf : ∀ (s : TraceStep) (x : α), s.HasDistinctFacts → (f s x).HasDistinctFacts)
    (items : List α) : (items.foldl f s).HasDistinctFacts :=
  List.foldlRecOn items f h fun s hs x _ => hf s x hs

/-- **A repetition is folded into a step without repetition of its facts.** -/
theorem HasDistinctFacts.absorb (h : s.HasDistinctFacts) {again : TraceStep}
    (hagain : again.HasDistinctFacts) : (s.absorb again).HasDistinctFacts :=
  { h with
    profiles := h.profiles.addAllNew again.profiles
    details := h.details.append_filter hagain.details
    options := h.options.addAllNew again.options }

end TraceStep

/-- **Facts are put into a step without repetition.** -/
theorem Findings.hasDistinctFacts_applyTo (f : Findings) (claims : Fields String) {s : TraceStep}
    (h : s.HasDistinctFacts) : (f.applyTo claims s).HasDistinctFacts := by
  have hcollect : (f.collect claims s).HasDistinctFacts := by
    have hcleared : (if f.clearOptions then s.clearOptions else s).HasDistinctFacts := by
      split
      · exact h.clearOptions
      · exact h
    have hprofiles := hcleared.addProfiles f.profiles
    have hdetails := hprofiles.foldl (f := fun s d => s.addDetail { d with claims := some claims })
      (fun _ _ hs => hs.addDetail _) f.profileDetails
    have hoptions := hdetails.addOptions f.options
    have hcalls := hoptions.foldl (fun _ call hs => hs.addCall call) f.calls
    have htransformations := hcalls.addTransformations f.transformations
    have hreports := htransformations.foldl (fun _ d hs => hs.addTransformationDetail d)
      f.transformationDetails
    have hvalidations := hreports.addValidationProfiles f.validationProfiles
    have hmappings := hvalidations.addMappings f.mappings
    unfold collect
    cases f.controlAction with
    | none => exact hmappings
    | some a => exact hmappings.addControlAction a
  exact { hcollect with }

namespace Rebuilding

/-- A step is opened without facts, and takes none twice until it is closed. -/
theorem isLasting_hasDistinctFacts : IsLasting TraceStep.HasDistinctFacts where
  opened t f log eventType s h := by
    obtain rfl := Option.some.inj h
    rw [← TraceStep.hasDistinctFacts_unjudged_iff, unjudged_outcome,
      TraceStep.hasDistinctFacts_unjudged_iff]
    have hplaced : { t.close.newStep log with eventType }.placed.HasDistinctFacts :=
      TraceStep.HasDistinctFacts.placed (TraceStep.hasDistinctFacts_of_bare rfl)
    split
    · exact { hplaced with }
    · exact hplaced
  facts f claims s h := f.hasDistinctFacts_applyTo claims h
  outcome h hsame := by
    rw [← TraceStep.hasDistinctFacts_unjudged_iff] at h ⊢
    rwa [hsame]
  change h hsame := by
    rw [← TraceStep.hasDistinctFacts_unmoved_iff] at h ⊢
    rwa [hsame]
  closed t s h := TraceStep.HasDistinctFacts.located (s := t.snapshot s) { h with }

end Rebuilding

/-- **No step of a trace has a fact twice.**  No profile, option, profile that validated,
transformation or display control of a step is equal to one before it, and no report about a
profile is about one that an earlier report is about. -/
theorem distinct_facts_of_steps (registry : Registry) (passes : List Pass)
    (settings : TraceSettings) (logs : List LogInput) :
    ∀ s ∈ (rebuildWith registry passes settings logs).2.steps, s.HasDistinctFacts := by
  refine forall_steps_rebuildWith (fun s _ _ h => { h with })
    (Rebuilding.forall_steps_close_behind (fun s again h hagain => h.absorb hagain)
      (fun s hs => ?_) fun s hs _ => Rebuilding.isLasting_hasDistinctFacts.of_mem_allFilings hs)
    passes
  obtain ⟨u, log, message, -, rfl⟩ :=
    Rebuilding.exists_fatalStep_of_mem_allFilings _ _ _ hs
  exact TraceStep.hasDistinctFacts_of_bare rfl

/-! ### A profile that is found twice -/

/-- What a handler says of the profile that is the current one. -/
def loginIsCurrent : Fields Value := [("CTP", .object [("v", .text "Login:1")])]

/-- The move to the first step, for this profile. -/
def openingResult : HandlerResult :=
  let moving := Rebuilding.movingTo "1"
  { moving with statebag := moving.statebag ++ loginIsCurrent }

/-- A log in which a step is opened for a profile, which then validates its page. -/
def loggedIn : LogInput where
  id := "a"
  timestamp := Rebuilding.after 0
  policyId := "P"
  correlationId := "C"
  clips :=
    [.headers { eventInstance := "Event:AUTH", policyId := "P" },
      .action Handler.orchestration,
      .handlerResult openingResult,
      .action Handler.selfAssertedValidation,
      .handlerResult { result := true, statebag := loginIsCurrent }]

/-- The group in which the step is opened. -/
def openingGroup : HandlerGroup where
  handler := Handler.orchestration
  predicate := none
  result := some openingResult
  clips := (loggedIn.clips.drop 1).take 2
  index := 1

/-- The group in which the page is validated. -/
def loginGroup : HandlerGroup where
  handler := Handler.selfAssertedValidation
  predicate := none
  result := some { result := true, statebag := loginIsCurrent }
  clips := loggedIn.clips.drop 3
  index := 3

theorem occurrences_loggedIn :
    supportedLogs {} [loggedIn] = [loggedIn] ∧
      occurrences {} [loggedIn] =
        [.event loggedIn (.group openingGroup), .event loggedIn (.group loginGroup)] :=
  Rebuilding.occurrences_singleton_eq_groups (by decide) rfl rfl rfl (by decide)

/-- The step has the profile once. -/
theorem steps_loggedIn :
    (rebuild {} [loggedIn]).steps.map (fun s =>
        (s.profiles.map Value.shown, s.profileDetails.length)) = [(["Login"], 1)] := by
  have hsteps := map_steps_rebuildWith
    (f := fun s : TraceStep => (s.profiles.map Value.shown, s.profileDetails.length))
    (fun _ _ => rfl) (fun _ _ => rfl) (Registry.standard ⟨1000, false⟩) Pass.standard {} [loggedIn]
  have hlast : occurrences {} [loggedIn] =
      [.event loggedIn (.group openingGroup)] ++ [.event loggedIn (.group loginGroup)] :=
    occurrences_loggedIn.2
  rw [hlast, Rebuilding.behind_append_of_validation (Registry.isStandard_standard _) _ _ rfl rfl,
    Rebuilding.behind, occurrences_loggedIn.1] at hsteps
  refine Eq.trans hsteps ?_
  decide

/-- The step of this trace has no fact twice. -/
theorem distinct_facts_of_login :
    ∃ s ∈ (rebuild {} [loggedIn]).steps,
      s.profiles.map Value.shown = ["Login"] ∧ s.HasDistinctFacts := by
  obtain ⟨s, hs, heq⟩ := List.exists_of_mem_map
    (f := fun s : TraceStep => (s.profiles.map Value.shown, s.profileDetails.length))
    (l := (rebuild {} [loggedIn]).steps) (b := (["Login"], 1))
    (by rw [steps_loggedIn]; simp)
  exact ⟨s, hs, congrArg Prod.fst heq, distinct_facts_of_steps
    (Registry.standard ({} : TraceSettings).orchestrationReset) Pass.standard {} [loggedIn] s hs⟩

end TrustFramework
