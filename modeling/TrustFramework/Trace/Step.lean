import TrustFramework.Distinct
import TrustFramework.Time.Timestamp
import TrustFramework.Trace.Fact

/-!
# Steps of a trace

A step is built up from the facts that telemetry reports while it is open.

* `StepResult` — how a step went, with `StepResult.merge` for steps taken together.
* `TraceStep` — a step; the functions on it put facts into it.
* `TraceStep.located` — a step with the node of the journey's graph it belongs to.
* `TraceStep.absorb` — a step with a repetition of it folded in.
-/

namespace TrustFramework

/-- How a step went. -/
inductive StepResult where
  | success
  | error
  | skipped
  | pendingInput
  | other (name : String)
  deriving DecidableEq, Repr, Inhabited

namespace StepResult

/-- The name of a result. -/
def name : StepResult → String
  | success => "Success"
  | error => "Error"
  | skipped => "Skipped"
  | pendingInput => "PendingInput"
  | other name => name

/-- The result of a name. -/
def ofName (s : String) : StepResult :=
  ([success, error, skipped, pendingInput].find? fun r => r.name = s).getD (other s)

/-- How much a result weighs against others. -/
def weight : StepResult → Nat
  | error => 3
  | pendingInput => 2
  | success => 1
  | skipped => 0
  | other _ => 0

/-- The result of steps taken together: the heavier one, the first if they weigh the same. -/
def merge (first second : StepResult) : StepResult :=
  if first.weight < second.weight then second else first

end StepResult

/-- A step of a trace. -/
structure TraceStep where
  sequence : Int := 0
  timestamp : Timestamp
  logId : String := ""
  eventType : String := "AUTH"
  nodeId : String := ""
  journeyId : Value := .text ""
  journeyName : Value := .text ""
  order : Int := 0
  result : StepResult := .success
  errorMessage : Option String := none
  errorHresult : Option String := none
  actionHandler : Option String := none
  profiles : List Value := []
  profileDetails : List ProfileDetail := []
  options : List Value := []
  selected : Value := .null
  isInteractive : Bool := false
  isFinal : Bool := false
  subJourney : Value := .null
  validationProfiles : List Value := []
  mappings : List ClaimMapping := []
  transformations : List Value := []
  transformationDetails : List TransformationDetail := []
  calls : List BackendCall := []
  displayControls : List Value := []
  controlActions : List ControlAction := []
  page : Option PageSettings := none
  sessionParticipant : Option Bool := none
  sessionActivated : Option Bool := none
  isVerification : Bool := false
  hasVerificationContext : Bool := false
  submittedClaims : Option (Fields String) := none
  interaction : Option Interaction := none
  transitionEvent : Option String := none
  statebag : Fields String := []
  claims : Fields String := []
  /-- Milliseconds until the next step. -/
  duration : Option Int := none
  deriving Repr, Inhabited

namespace TraceStep

/-! ### Outcomes -/

/-- A step that failed with a message, and a code unless that is empty. -/
def withError (s : TraceStep) (message : String) (hresult : Option String) : TraceStep :=
  { s with
    errorMessage := some message
    errorHresult := (hresult.filter fun h => !h.isEmpty) <|> s.errorHresult
    result := .error }

/-- A step with a result. -/
def withResult (s : TraceStep) (r : StepResult) : TraceStep := { s with result := r }

/-! ### Facts -/

/-- A step with more profiles. -/
def addProfiles (s : TraceStep) (ids : List Value) : TraceStep :=
  { s with profiles := addAllNew s.profiles ids }

/-- A value with another one for it where it is hollow and the other is not. -/
def filled (v w : Value) : Value := if v.isHollow && !w.isHollow then w else v

/-- What is known about a profile with what is reported about it once more: further
transformations, whatever was empty before, and the claims of the last report. -/
def ProfileDetail.extend (d more : ProfileDetail) : ProfileDetail :=
  { d with
    transformations := d.transformations ++ more.transformations.filter fun t =>
      !(d.transformations.any fun u => u.id == t.id)
    providerType := filled d.providerType more.providerType
    protocolType := filled d.protocolType more.protocolType
    claims := more.claims <|> d.claims }

/-- Details of profiles with those of one more report: the first of the same profile is
extended. -/
def placeDetail (more : ProfileDetail) : List ProfileDetail → List ProfileDetail
  | [] => [more]
  | d :: rest =>
    if d.id == more.id then ProfileDetail.extend d more :: rest else d :: placeDetail more rest

/-- A step with a report about a profile. -/
def addDetail (s : TraceStep) (d : ProfileDetail) : TraceStep :=
  { s with profileDetails := placeDetail d s.profileDetails }

/-- A step with more options to choose from. -/
def addOptions (s : TraceStep) (options : List Value) : TraceStep :=
  { s with options := addAllNew s.options options }

/-- A step with nothing to choose. -/
def clearOptions (s : TraceStep) : TraceStep := { s with options := [], isInteractive := false }

/-- A step with more profiles that validated. -/
def addValidationProfiles (s : TraceStep) (ids : List Value) : TraceStep :=
  { s with validationProfiles := addAllNew s.validationProfiles ids }

/-- A step with more mappings. -/
def addMappings (s : TraceStep) (mappings : List ClaimMapping) : TraceStep :=
  { s with mappings := s.mappings ++ mappings }

/-- A step with more transformations. -/
def addTransformations (s : TraceStep) (ids : List Value) : TraceStep :=
  { s with transformations := addAllNew s.transformations ids }

/-- A step with a report about a transformation. -/
def addTransformationDetail (s : TraceStep) (t : TransformationDetail) : TraceStep :=
  { s with
    transformationDetails := s.transformationDetails ++ [t]
    transformations := addNew s.transformations t.id }

/-- A step with one more call. -/
def addCall (s : TraceStep) (call : BackendCall) : TraceStep :=
  { s with calls := s.calls ++ [call] }

/-- A step with one more action of a display control. -/
def addControlAction (s : TraceStep) (a : ControlAction) : TraceStep :=
  { s with
    displayControls := addNew s.displayControls (.text a.controlId)
    controlActions := s.controlActions ++ [a] }

/-! ### Places in the graph -/

/-- The node of a step of a journey. -/
def nodeOf (journeyId : Value) (order : Int) : String :=
  journeyId.shown ++ "-Step" ++ toString order

/-- A step with its node, if it belongs to a journey and has a number. -/
def placed (s : TraceStep) : TraceStep :=
  if !s.journeyId.isHollow && 0 < s.order then { s with nodeId := nodeOf s.journeyId s.order }
  else s

/-- A step with its node, unless it has one. -/
def located (s : TraceStep) : TraceStep := if s.nodeId.isEmpty then s.placed else s

/-! ### Repetitions -/

/-- A step with a repetition of it folded in. -/
def absorb (s again : TraceStep) : TraceStep :=
  { s with
    profiles := addAllNew s.profiles again.profiles
    profileDetails := s.profileDetails ++ again.profileDetails.filter fun d =>
      !(s.profileDetails.any fun e => e.id == d.id)
    options := addAllNew s.options again.options
    calls := s.calls ++ again.calls
    controlActions := s.controlActions ++ again.controlActions
    result := s.result.merge again.result
    errorMessage := if (s.errorMessage.getD "").isEmpty && !(again.errorMessage.getD "").isEmpty
      then again.errorMessage else s.errorMessage
    errorHresult := if (s.errorMessage.getD "").isEmpty && !(again.errorMessage.getD "").isEmpty
      then again.errorHresult else s.errorHresult
    isFinal := s.isFinal || again.isFinal
    statebag := again.statebag
    claims := again.claims }

/-! ### Reports -/

/-- A step for a report, with its time as text. -/
def fieldsAt (s : TraceStep) (time : String) : Fields Value :=
  [("sequenceNumber", .int s.sequence),
    ("timestamp", .text time),
    ("logId", .text s.logId),
    ("eventType", .text s.eventType),
    ("graphNodeId", .text s.nodeId),
    ("journeyContextId", s.journeyId),
    ("journeyName", s.journeyName),
    ("stepOrder", .int s.order),
    ("result", .text s.result.name),
    ("errorMessage", .ofText? s.errorMessage),
    ("errorHresult", .ofText? s.errorHresult),
    ("actionHandler", .ofText? s.actionHandler),
    ("technicalProfiles", .list s.profiles),
    ("technicalProfileDetails", .list (s.profileDetails.map ProfileDetail.toValue)),
    ("selectableOptions", .list s.options),
    ("selectedOption", s.selected),
    ("isInteractive", .bool s.isInteractive),
    ("isFinalStep", .bool s.isFinal),
    ("subJourneyId", s.subJourney),
    ("validationTechnicalProfiles", .list s.validationProfiles),
    ("claimMappings", .list (s.mappings.map ClaimMapping.toValue)),
    ("claimsTransformations", .list s.transformations),
    ("claimsTransformationDetails",
      .list (s.transformationDetails.map TransformationDetail.toValue)),
    ("backendApiCalls", .list (s.calls.map BackendCall.toValue)),
    ("displayControls", .list s.displayControls),
    ("displayControlActions", .list (s.controlActions.map ControlAction.toValue)),
    ("uiSettings", Value.ofOption (s.page.map PageSettings.toValue)),
    ("ssoSessionParticipant", Value.ofOption (s.sessionParticipant.map .bool)),
    ("ssoSessionActivated", Value.ofOption (s.sessionActivated.map .bool)),
    ("isVerificationStep", .bool s.isVerification),
    ("hasVerificationContext", .bool s.hasVerificationContext),
    ("submittedClaims", Value.ofOption (s.submittedClaims.map textFields)),
    ("interactionResult", Value.ofOption (s.interaction.map Interaction.toValue)),
    ("transitionEvent", .ofText? s.transitionEvent),
    ("statebagSnapshot", textFields s.statebag),
    ("claimsSnapshot", textFields s.claims),
    ("duration", Value.ofOption (s.duration.map .int))]

/-- A step for a report, if the calendar has a date for its time. -/
def toValue? (s : TraceStep) : Option Value :=
  s.timestamp.render?.map fun time => .object (s.fieldsAt time)

end TraceStep
end TrustFramework
