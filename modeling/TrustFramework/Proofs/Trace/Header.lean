import TrustFramework.Trace.Reconstruction

/-!
# The header of a step

A step is opened with its number in the trace, its time and log, and the journey and the
number it has there.  None of the facts that are put into it later changes these.

## Main definitions

* `StepHeader`, `TraceStep.header` — what a step is opened with.
* `TraceStep.bare` — a step without the lists that facts go to.
* `TraceStep.unjudged` — a step without its outcome.
* `TraceStep.unmoved` — a step without what changes of state say.

## Main results

* `Findings.bare_collect` — facts are collected in lists.
* `Rebuilding.unjudged_outcome`, `Rebuilding.unmoved_noteTransition` — what outcomes and changes
  of state leave as it is.
* `Findings.header_applyTo` — **facts leave the header as it is.**
* `Rebuilding.header_outcomeOfOpen`, `Rebuilding.header_noteTransition` — and so do outcomes
  and changes of state.
* `TraceStep.header_absorb` — a step keeps its header when a repetition is folded in.
-/

namespace TrustFramework

/-- What a step is opened with. -/
structure StepHeader where
  sequence : Int
  timestamp : Timestamp
  logId : String
  eventType : String
  journeyId : Value
  journeyName : Value
  order : Int

namespace TraceStep

/-- What a step was opened with. -/
def header (s : TraceStep) : StepHeader :=
  ⟨s.sequence, s.timestamp, s.logId, s.eventType, s.journeyId, s.journeyName, s.order⟩

@[simp] theorem header_placed (s : TraceStep) : s.placed.header = s.header := by
  unfold placed
  split <;> rfl

@[simp] theorem header_located (s : TraceStep) : s.located.header = s.header := by
  unfold located
  split
  · exact header_placed s
  · rfl

/-- A step keeps its header when a repetition is folded in. -/
@[simp] theorem header_absorb (s again : TraceStep) : (s.absorb again).header = s.header := rfl

/-! ### Facts -/

/-- A step without the lists that groups add to. -/
def bare (s : TraceStep) : TraceStep :=
  { s with
    profiles := []
    profileDetails := []
    options := []
    isInteractive := false
    validationProfiles := []
    mappings := []
    transformations := []
    transformationDetails := []
    calls := []
    displayControls := []
    controlActions := [] }

@[simp] theorem bare_addProfiles (s : TraceStep) (ids : List Value) :
    (s.addProfiles ids).bare = s.bare := rfl

@[simp] theorem bare_addOptions (s : TraceStep) (options : List Value) :
    (s.addOptions options).bare = s.bare := rfl

@[simp] theorem bare_clearOptions (s : TraceStep) : s.clearOptions.bare = s.bare := rfl

@[simp] theorem bare_addValidationProfiles (s : TraceStep) (ids : List Value) :
    (s.addValidationProfiles ids).bare = s.bare := rfl

@[simp] theorem bare_addMappings (s : TraceStep) (mappings : List ClaimMapping) :
    (s.addMappings mappings).bare = s.bare := rfl

@[simp] theorem bare_addTransformations (s : TraceStep) (ids : List Value) :
    (s.addTransformations ids).bare = s.bare := rfl

@[simp] theorem bare_addControlAction (s : TraceStep) (a : ControlAction) :
    (s.addControlAction a).bare = s.bare := rfl

/-- What adds to the lists of a step does so any number of times. -/
theorem bare_foldl {α : Type} {f : TraceStep → α → TraceStep}
    (hf : ∀ s x, (f s x).bare = s.bare) (items : List α) (s : TraceStep) :
    (items.foldl f s).bare = s.bare := by
  induction items generalizing s with
  | nil => rfl
  | cons x items ih => rw [List.foldl_cons, ih, hf]

end TraceStep

namespace Findings

/-- **Facts are collected in lists**, and nothing else of a step changes. -/
theorem bare_collect (f : Findings) (claims : Fields String) (s : TraceStep) :
    (f.collect claims s).bare = s.bare := by
  have hdetails := TraceStep.bare_foldl
    (f := fun s d => s.addDetail { d with claims := some claims }) (fun _ _ => rfl)
    f.profileDetails
  have hcalls := TraceStep.bare_foldl (f := TraceStep.addCall) (fun _ _ => rfl) f.calls
  have htransformations := TraceStep.bare_foldl (f := TraceStep.addTransformationDetail)
    (fun _ _ => rfl) f.transformationDetails
  unfold collect
  cases f.controlAction <;> cases f.clearOptions <;>
    simp [hdetails, hcalls, htransformations]

section

variable (f : Findings) (claims : Fields String) (s : TraceStep)

/-- **Facts leave the header as it is.** -/
@[simp] theorem header_applyTo : (f.applyTo claims s).header = s.header :=
  (congrArg TraceStep.header (f.bare_collect claims s) :)

@[simp] theorem nodeId_applyTo : (f.applyTo claims s).nodeId = s.nodeId :=
  (congrArg TraceStep.nodeId (f.bare_collect claims s) :)

@[simp] theorem result_applyTo : (f.applyTo claims s).result = s.result :=
  (congrArg TraceStep.result (f.bare_collect claims s) :)

@[simp] theorem errorMessage_applyTo : (f.applyTo claims s).errorMessage = s.errorMessage :=
  (congrArg TraceStep.errorMessage (f.bare_collect claims s) :)

/-- The interaction is that of the facts, if they have one. -/
@[simp] theorem interaction_applyTo :
    (f.applyTo claims s).interaction = (f.interaction <|> s.interaction) :=
  (congrArg (fun s => f.interaction <|> s.interaction) (f.bare_collect claims s) :)

end

end Findings

/-! ### Outcomes and changes of state -/

namespace TraceStep

/-- A step without its outcome. -/
def unjudged (s : TraceStep) : TraceStep :=
  { s with result := .success, errorMessage := none, errorHresult := none }

@[simp] theorem unjudged_withResult (s : TraceStep) (r : StepResult) :
    (s.withResult r).unjudged = s.unjudged := rfl

@[simp] theorem unjudged_withError (s : TraceStep) (message : String) (hresult : Option String) :
    (s.withError message hresult).unjudged = s.unjudged := rfl

/-- A step without what changes of state say. -/
def unmoved (s : TraceStep) : TraceStep := { s with transitionEvent := none, interaction := none }

end TraceStep

namespace Rebuilding

section

variable (f : Findings) (s : TraceStep)

/-- An outcome is the result of a step and its error, and nothing else of the step changes. -/
@[simp] theorem unjudged_outcome : (outcome f s).unjudged = s.unjudged := by
  unfold outcome
  split
  · rfl
  · split
    · split <;> simp
    · simp

@[simp] theorem unjudged_outcomeOfOpen : (outcomeOfOpen f s).unjudged = s.unjudged := by
  unfold outcomeOfOpen
  split
  · rfl
  · exact unjudged_outcome f s

@[simp] theorem header_outcome : (outcome f s).header = s.header :=
  (congrArg TraceStep.header (unjudged_outcome f s) :)

@[simp] theorem nodeId_outcome : (outcome f s).nodeId = s.nodeId :=
  (congrArg TraceStep.nodeId (unjudged_outcome f s) :)

@[simp] theorem header_outcomeOfOpen : (outcomeOfOpen f s).header = s.header :=
  (congrArg TraceStep.header (unjudged_outcomeOfOpen f s) :)

@[simp] theorem nodeId_outcomeOfOpen : (outcomeOfOpen f s).nodeId = s.nodeId :=
  (congrArg TraceStep.nodeId (unjudged_outcomeOfOpen f s) :)

@[simp] theorem interaction_outcomeOfOpen : (outcomeOfOpen f s).interaction = s.interaction :=
  (congrArg TraceStep.interaction (unjudged_outcomeOfOpen f s) :)

end

section

variable (eventName : String) (s : TraceStep)

/-- A change of state is one of the interaction, and nothing else of a step changes. -/
@[simp] theorem unmoved_noteTransition : (noteTransition eventName s).unmoved = s.unmoved := by
  unfold noteTransition
  split
  · rfl
  · show (if _ then _ else _ : TraceStep).unmoved = _
    split <;> rfl

@[simp] theorem header_noteTransition : (noteTransition eventName s).header = s.header :=
  (congrArg TraceStep.header (unmoved_noteTransition eventName s) :)

@[simp] theorem nodeId_noteTransition : (noteTransition eventName s).nodeId = s.nodeId :=
  (congrArg TraceStep.nodeId (unmoved_noteTransition eventName s) :)

@[simp] theorem result_noteTransition : (noteTransition eventName s).result = s.result :=
  (congrArg TraceStep.result (unmoved_noteTransition eventName s) :)

@[simp] theorem errorMessage_noteTransition :
    (noteTransition eventName s).errorMessage = s.errorMessage :=
  (congrArg TraceStep.errorMessage (unmoved_noteTransition eventName s) :)

end

end Rebuilding

end TrustFramework
