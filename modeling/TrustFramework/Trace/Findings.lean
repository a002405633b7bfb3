import TrustFramework.Recorder.Grouping
import TrustFramework.Trace.Evidence
import TrustFramework.Trace.Execution
import TrustFramework.Trace.JourneyStack

/-!
# Findings

What the group of a handler means for the trace: whether a step begins or ends, how it
went, what entered the statebag, which journey was entered or left, and the facts about
the step.

* `Findings` — the outcome of interpreting a group.
* `Findings.applyTo` — the facts put into a step.
* `Context` — what a group is interpreted in.
-/

namespace TrustFramework

/-- What the group of a handler means. -/
structure Findings where
  /-- Whether the group could be interpreted. -/
  success : Bool := true
  createStep : Bool := false
  finalizeStep : Bool := false
  stepResult : Option StepResult := none
  error : Option String := none
  errorHresult : Option String := none
  actionHandler : Option String := none
  statebagUpdates : Fields String := []
  claimsUpdates : Fields String := []
  profiles : List Value := []
  profileDetails : List ProfileDetail := []
  clearOptions : Bool := false
  options : List Value := []
  selected : Option String := none
  isInteractive : Bool := false
  /-- The sub-journey that is entered. -/
  entered : Option Value := none
  /-- Whether the sub-journey that runs is left. -/
  left : Bool := false
  calls : List BackendCall := []
  transformations : List Value := []
  transformationDetails : List TransformationDetail := []
  validationProfiles : List Value := []
  mappings : List ClaimMapping := []
  controlAction : Option ControlAction := none
  interaction : Option Interaction := none
  isFinal : Bool := false
  page : Option PageSettings := none
  sessionParticipant : Option Bool := none
  sessionActivated : Option Bool := none
  isVerification : Bool := false
  hasVerificationContext : Bool := false
  submittedClaims : Option (Fields String) := none
  deriving Repr, Inhabited

/-- What a group is interpreted in. -/
structure Context where
  handler : String
  result : Option HandlerResult
  timestamp : Timestamp
  /-- The entries of the statebag before the group. -/
  statebag : Fields String := []

namespace Findings

/-- The findings about a group that cannot be interpreted. -/
def failure (error : String) : Findings := { success := false, error := some error }

/-- What a handler's result puts into the statebag, and nothing else. -/
def ofResult (r : HandlerResult) : Findings :=
  { statebagUpdates := r.updates, claimsUpdates := r.claims }

/-- A sub-journey that is entered, if there is one. -/
def withEntered (f : Findings) (id : Value) : Findings := { f with entered := some id }

/-! ### Facts put into a step -/

/-- A value instead of another, if there is one. -/
def instead {α : Type} (old : Option α) (new : Option α) : Option α := new <|> old

/-- The lists and details of a group put into a step, details with the claims there are. -/
def collect (f : Findings) (claims : Fields String) (s : TraceStep) : TraceStep :=
  let s := if f.clearOptions then s.clearOptions else s
  let s := s.addProfiles f.profiles
  let s := f.profileDetails.foldl (fun s d => s.addDetail { d with claims := some claims }) s
  let s := s.addOptions f.options
  let s := f.calls.foldl TraceStep.addCall s
  let s := s.addTransformations f.transformations
  let s := f.transformationDetails.foldl TraceStep.addTransformationDetail s
  let s := s.addValidationProfiles f.validationProfiles
  let s := s.addMappings f.mappings
  match f.controlAction with
  | some a => s.addControlAction a
  | none => s

/-- The marks of a group put on a step. -/
def mark (f : Findings) (s : TraceStep) : TraceStep :=
  { s with
    actionHandler := if f.createStep then s.actionHandler
      else (f.actionHandler.filter fun h => !h.isEmpty) <|> s.actionHandler
    isInteractive := s.isInteractive || f.isInteractive || 1 < f.options.length
    selected := match f.selected with
      | some option => if option.isEmpty then s.selected else .text option
      | none => s.selected
    subJourney := f.entered.getD s.subJourney
    page := instead s.page f.page
    sessionParticipant := instead s.sessionParticipant f.sessionParticipant
    sessionActivated := instead s.sessionActivated f.sessionActivated
    isVerification := s.isVerification || f.isVerification
    hasVerificationContext := s.hasVerificationContext || f.hasVerificationContext
    submittedClaims := instead s.submittedClaims
      (f.submittedClaims.filter fun claims => !claims.isEmpty)
    interaction := instead s.interaction f.interaction
    isFinal := s.isFinal || f.isFinal }

/-- The facts of a group put into a step. -/
def applyTo (f : Findings) (claims : Fields String) (s : TraceStep) : TraceStep :=
  f.mark (f.collect claims s)

end Findings
end TrustFramework
