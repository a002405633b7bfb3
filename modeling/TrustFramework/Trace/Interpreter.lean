import TrustFramework.Settings.Basic
import TrustFramework.Trace.Findings
import TrustFramework.Trace.Handler

/-!
# Interpreters

An interpreter claims a family of handlers and says what their groups mean. All but one
look at a group alone; the one for the orchestration remembers the last step it opened
and when it last saw a group, since the same step number after a pause is a new step.

* `Interpreter` — the interpreters.
* `Interpreter.handlers`, `Interpreter.claims` — the handlers one claims.
* `Orchestration` — what the interpreter of the orchestration remembers.
* `Interpreter.interpret` — the findings about a group.
-/

namespace TrustFramework

/-- The interpreters, each named for the handlers it claims. -/
inductive Interpreter where
  /-- Claims nothing and understands nothing. -/
  | blank
  /-- Claims nothing and takes over what a result puts into the statebag. -/
  | statebagOnly
  | orchestration
  | stepInvocation
  | exchange
  | transformation
  | realmDiscovery
  | subJourney
  | selfAssertedRedirect
  | selfAssertedValidation
  | selfAssertedAction
  | completion
  | responseValidation
  | protocolProbe
  | session
  | pageSettings
  | errorReport
  | displayControl
  deriving DecidableEq, Repr, Inhabited

/-- What the interpreter of the orchestration remembers. -/
structure Orchestration where
  /-- How long a pause must be to start over. -/
  reset : Milliseconds
  lastStep : Int := 0
  lastSeen : Option Timestamp := none
  deriving DecidableEq, Repr, Inhabited

/-- The findings about a group, with what the orchestration remembers then and the step
that the journey moved to. -/
structure Interpretation where
  findings : Findings
  memory : Orchestration
  moved : Option Int := none

namespace Interpreter

/-! ### Claiming handlers -/

/-- The handlers that an interpreter claims by name. -/
def handlers : Interpreter → List String
  | blank => []
  | statebagOnly => []
  | orchestration => [Handler.orchestration]
  | stepInvocation => [Handler.stepInvocation]
  | exchange => Handler.exchanges
  | transformation => Handler.transformations
  | realmDiscovery => Handler.realmDiscovery
  | subJourney => Handler.subJourneys
  | selfAssertedRedirect => [Handler.selfAssertedRedirect]
  | selfAssertedValidation => [Handler.selfAssertedValidation]
  | selfAssertedAction => [Handler.selfAssertedAction]
  | completion => Handler.completions
  | responseValidation => [Handler.responseValidation]
  | protocolProbe => Handler.protocolProbes
  | session => Handler.sessions
  | pageSettings => [Handler.pageManager]
  | errorReport => Handler.errors
  | displayControl => Handler.displayControls

/-- Whether an interpreter claims a handler: by its name in full or in short; the one for
errors also if the name of one of its handlers is part of it. -/
def claims (i : Interpreter) (handler : String) : Bool :=
  (i.handlers.any fun name => Handler.isCalled name handler) ||
    (i = errorReport && i.handlers.any fun name => Handler.occursIn name handler)

/-- The interpreters that are tried, in order. -/
def standard : List Interpreter :=
  [orchestration, stepInvocation, exchange, transformation, realmDiscovery, subJourney,
    selfAssertedRedirect, selfAssertedValidation, selfAssertedAction, completion,
    responseValidation, protocolProbe, session, pageSettings, errorReport, displayControl]

/-! ### Orchestration -/

/-- The step number a group is about: that of its own updates, else that of the statebag,
else zero. -/
def stepNumberText (statebag updates : Fields String) : String :=
  (updates.get? "ORCH_CS" <|> statebag.get? "ORCH_CS").getD "0"

/-- Whether two moments lie further apart than a pause has to be. -/
def isPause (reset : Milliseconds) (s t : Timestamp) : Bool :=
  (Timestamp.elapsed s t).compareInt? reset.count == some .gt

/-- What the orchestration remembers when a group comes in. -/
def seen (m : Orchestration) (now : Timestamp) : Orchestration :=
  { m with
    lastStep := if m.lastSeen.any fun last => isPause m.reset last now then 0 else m.lastStep
    lastSeen := some now }

/-- The findings about a group of the orchestration. -/
def readOrchestration (m : Orchestration) (c : Context) (r : HandlerResult) : Interpretation :=
  let updates := r.updates
  let text := stepNumberText c.statebag updates
  match Text.readInt? text with
  | none => ⟨.failure ("ORCH_CS is not a step number: " ++ Text.quoted text), m, none⟩
  | some step =>
    let m := seen m c.timestamp
    let findings : Findings :=
      { Findings.ofResult r with
        profiles := ((currentProfile? r).filter fun id => !id.isEmpty).toList.map .text
        error := r.exception.map RecordedException.message
        errorHresult := r.exception.bind RecordedException.hresult
        stepResult := if r.exception.isSome then some .error else none }
    if 0 < step && step ≠ m.lastStep then
      ⟨{ findings with
          createStep := true
          actionHandler := some Handler.orchestration
          stepResult := findings.stepResult <|> some .success },
        { m with lastStep := step }, some step⟩
    else ⟨findings, m, none⟩

/-! ### Steps and exchanges -/

/-- The findings about the decision whether a step runs. -/
def readStepInvocation (r : HandlerResult) : Findings :=
  let options := enabledProfiles r "EnabledForUserJourneysTrue"
  let exchange := initiatingExchange? "" r
  { Findings.ofResult r with
    profiles := match exchange, options with
      | some d, _ => [d.id]
      | none, [only] => [only]
      | none, _ => []
    profileDetails := exchange.toList
    options := if 1 < options.length then options else []
    isInteractive := 1 < options.length
    stepResult := if r.predicateResult = some "False" then some .skipped else none }

/-- The exchange that a handler began: with a party, else with a service. -/
def exchangeOf? (r : HandlerResult) : Option ProfileDetail :=
  initiatingExchange? unknownProvider r <|> (backendExchanges r).head?

/-- The profile that the statebag names, as a detail. -/
def currentDetail? (provider : String) (r : HandlerResult) : Option ProfileDetail :=
  ((currentProfile? r).filter fun id => !id.isEmpty).map fun id =>
    { id := .text id, providerType := .text provider }

/-- The findings about an exchange of claims. -/
def readExchange (handler : String) (r : HandlerResult) : Findings :=
  let found := exchangeOf? r <|> currentDetail? unknownProvider r
  let findings :=
    { Findings.ofResult r with
      profiles := found.toList.map ProfileDetail.id
      profileDetails := found.toList }
  if Handler.isCalled Handler.exchangeSubmit handler then
    { findings with
      actionHandler := some Handler.exchangeSubmit
      finalizeStep := true
      stepResult := some .success }
  else if Handler.isCalled Handler.exchangeSelect handler then
    let options := enabledProfiles r "EnabledForUserJourneysTrue"
    { Findings.ofResult r with
      actionHandler := some Handler.exchangeSelect
      options
      isInteractive := 1 < options.length }
  else if Handler.isCalled Handler.exchangeRedirect handler then
    { findings with actionHandler := some Handler.exchangeRedirect }
  else { findings with actionHandler := some Handler.exchangeAction }

/-! ### Transformations -/

/-- The transformations that a value of an initiated exchange names. -/
def initiatedTransformations (v : Value) : List TransformationDetail :=
  ["InitiatingOutputClaimsTransformation", "InitiatingInputClaimsTransformation"].filterMap
    fun name => ((v.get name).get "TransformationId").solid?.map fun id => { id }

/-- The transformations that a handler ran. -/
def transformationsRun (r : HandlerResult) : List TransformationDetail :=
  ((r.recordsOf "OutputClaimsTransformation").flatMap fun v =>
    (entriesNamed "ClaimsTransformation" v).filterMap TransformationDetail.read?) ++
  (r.recordsOf "GettingClaims").flatMap initiatedTransformations

/-- The findings about transformations. The service that was called owns them. -/
def readTransformation (r : HandlerResult) : Findings :=
  let run := transformationsRun r
  { Findings.ofResult r with
    transformations := run.map TransformationDetail.id
    transformationDetails := run
    profileDetails := if run.isEmpty then []
      else (backendExchanges r).head?.toList.map fun d => { d with transformations := run }
    calls := backendCalls r r.updates }

/-! ### Discovery and sub-journeys -/

/-- The findings about the providers a user may come from. -/
def readRealmDiscovery (r : HandlerResult) : Findings :=
  { Findings.ofResult r with
    actionHandler := some Handler.realmDiscoveryAction
    options := enabledProfiles r "HomeRealmDiscovery"
    isInteractive := true }

/-- The sub-journey that a record names: a text, or a field of an object. A record of
another shape is passed over. -/
def subJourneyIn : List Record → Value
  | [] => .null
  | entry :: rest =>
    if ["SubJourney", "SubJourneyId", "SubJourneyInvoked"].contains entry.key then
      match entry.value with
      | .text s => if s.isEmpty then subJourneyIn rest else .text s
      | .object fields =>
        let v := Value.object fields
        (v.get "SubJourneyId").orElse (v.get "Id")
      | _ => subJourneyIn rest
    else subJourneyIn rest

/-- The findings about sub-journeys. -/
def readSubJourney (handler : String) (r : HandlerResult) : Findings :=
  let findings := Findings.ofResult r
  if Handler.isCalled Handler.subJourneyExit handler then
    { findings with actionHandler := some Handler.subJourneyExit, left := true }
  else
    match (subJourneyIn r.records).solid? with
    | none => findings
    | some id =>
      { findings with
        actionHandler := some (if Handler.isCalled Handler.subJourneyTransfer handler then
          Handler.subJourneyTransfer else Handler.subJourneyDispatch)
        entered := some id }

/-! ### Pages of the policy's own -/

/-- The provider of a page of the policy's own. -/
def selfAssertedProvider : String := "SelfAssertedAttributeProvider"

/-- The mapping that a value names, if it names both sides. -/
def mapping? (v : Value) : Option ClaimMapping := do
  let partner ← (v.get "PartnerClaimType").solid?
  let policy ← (v.get "PolicyClaimType").solid?
  pure ⟨partner, policy⟩

/-- The records about the profiles that validated. -/
def validationRecords (r : HandlerResult) : List (String × Value) :=
  (r.recordsOf "Validation").flatMap fun v =>
    (entriesNamed "ValidationTechnicalProfile" v).flatMap entriesOf

/-- The profiles that validated. -/
def validationProfilesOf (r : HandlerResult) : List Value :=
  distinct ((validationRecords r).filterMap fun
    | ("TechnicalProfileId", .text id) => some (.text id)
    | _ => none)

/-- The mappings of the profiles that validated. -/
def validationMappings (r : HandlerResult) : List ClaimMapping :=
  (validationRecords r).filterMap fun
    | ("MappingFromPartnerClaimType", v) => mapping? v
    | _ => none

/-- The findings about the validation of a page. -/
def readSelfAssertedValidation (r : HandlerResult) : Findings :=
  let found := currentDetail? selfAssertedProvider r
  let findings : Findings :=
    { Findings.ofResult r with
      actionHandler := some Handler.selfAssertedValidation
      profiles := found.toList.map ProfileDetail.id
      profileDetails := found.toList
      validationProfiles := validationProfilesOf r
      mappings := validationMappings r
      submittedClaims := if r.claims.isEmpty then none else some r.claims }
  match exceptionFound? r with
  | none => findings
  | some (message, hresult) =>
    if message.isEmpty then findings
    else
      { findings with
        stepResult := some .error
        error := some message
        errorHresult := hresult
        interaction := some ⟨Interaction.failed, false, some message, hresult⟩ }

/-! ### The end of a journey -/

/-- A profile with its protocol for an unknown provider. -/
def namedProvider (d : ProfileDetail) : ProfileDetail :=
  if d.providerType == .text unknownProvider && !d.protocolType.isHollow then
    { d with providerType := d.protocolType }
  else d

/-- The findings about the end of a journey. -/
def readCompletion (handler : String) (r : HandlerResult) : Findings :=
  let found := (exchangeOf? r).map namedProvider
  { Findings.ofResult r with
    actionHandler :=
      some ((Handler.completions.find? fun name => Handler.isCalled name handler).getD handler)
    profiles := found.toList.map ProfileDetail.id
    profileDetails := found.toList
    isFinal := true }

/-! ### Probes, sessions and pages -/

/-- The findings about the probe for a protocol: the profiles that are called, in place
of any options offered before. -/
def readProtocolProbe (r : HandlerResult) : Findings :=
  let found := (initiatingExchange? unknownProvider r).toList ++ backendExchanges r
  { Findings.ofResult r with
    profiles := found.map ProfileDetail.id
    profileDetails := found
    clearOptions := !found.isEmpty
    calls := backendCalls r r.updates }

/-- The findings about sessions. -/
def readSession (handler : String) (r : HandlerResult) : Findings :=
  let findings := Findings.ofResult r
  if Handler.isCalled Handler.sessionParticipant handler then
    { findings with sessionParticipant := some (r.predicateResult = some "True") }
  else if Handler.isCalled Handler.sessionActivation handler then
    { findings with sessionActivated := some r.result }
  else if Handler.isCalled Handler.sessionReset handler then
    { findings with sessionParticipant := some false }
  else findings

/-- A page with what its settings say. -/
def notePage (page : PageSettings) (settings : Value) : PageSettings :=
  if settings.isObject then
    let branding := settings.get "tenantBranding"
    { page with
      pageType := (settings.get "api").orElse page.pageType
      remoteResource := (settings.get "remoteResource").orElse page.remoteResource
      pageId := (settings.get "pageViewId").orElse page.pageId
      language := ((settings.get "locale").get "lang").orElse page.language
      config := (settings.get "config").fields? <|> page.config
      tenantBranding := if branding.isObject then
          some [("bannerLogoUrl", branding.get "bannerLogoUrl"),
            ("backgroundColor", branding.get "backgroundColor")]
        else page.tenantBranding }
  else page

/-- The page that a handler shows, with the settings in its records. -/
def pageOf (statebag : Fields String) (r : HandlerResult) : PageSettings :=
  let definition := r.updates.get? "EID" <|> statebag.get? "EID"
  let page : PageSettings :=
    { contentDefinition := .ofText? (definition.filter fun s => !s.isEmpty) }
  (entriesNamed "Settings" ((r.record? "ApiUiManagerInfo").getD .null)).foldl
    (fun page v => match v.text?.bind Json.read? with
      | some settings => notePage page settings
      | none => page) page

/-- The findings about a page. -/
def readPageSettings (statebag : Fields String) (r : HandlerResult) : Findings :=
  let page := pageOf statebag r
  { Findings.ofResult r with page := if page.isEmpty then none else some page }

/-! ### Errors and display controls -/

/-- The findings about an error. -/
def readErrorReport (handler : String) (r : HandlerResult) : Findings :=
  let findings := Findings.ofResult r
  if !r.result || Handler.isCalled Handler.sendError handler then
    match exceptionFound? r with
    | none => findings
    | some (message, hresult) =>
      if message.isEmpty then findings
      else
        { findings with
          createStep := true
          stepResult := some .error
          error := some message
          errorHresult := hresult
          actionHandler := some (shortName handler) }
  else findings

/-- What is known about a profile of a display control while its records are read. -/
structure ControlDraft where
  id : String := ""
  transformations : List TransformationDetail := []
  mappings : List ClaimMapping := []

/-- A draft with what one more record says. -/
def ControlDraft.note (d : ControlDraft) : String × Value → ControlDraft
  | ("TechnicalProfileId", .text id) => { d with id }
  | ("ClaimsTransformation", v) =>
    { d with transformations := d.transformations ++ (TransformationDetail.read? v).toList }
  | ("MappingPartnerTypeForClaim", v) =>
    { d with mappings := d.mappings ++ (mapping? v).toList }
  | _ => d

/-- The profile of a display control that nested records describe, if they name it. -/
def controlProfile? (v : Value) : Option ControlProfile :=
  let d := (entriesOf v).foldl ControlDraft.note {}
  if d.id.isEmpty then none else some ⟨.text d.id, d.transformations, d.mappings⟩

/-- The control and the action that a text names: what stands before and behind the first
slash. -/
def controlAction (s : String) : ControlAction :=
  let (controlId, action) := (Text.atFirst? '/' s).getD (s, "")
  { controlId, action }

/-- The action of a display control that some records describe, if they name the control. -/
def controlActionOf? (r : HandlerResult) : Option ControlAction :=
  let named := r.records.reverse.findSome? fun entry =>
    if entry.key = "Id" then entry.value.text? else none
  let code := r.records.reverse.findSome? fun entry =>
    if entry.key = "Result" then entry.value.text? else none
  let profiles := r.records.flatMap fun entry =>
    if entry.key = "DisplayControlAction" then
      ((entry.value.items?).getD []).filterMap controlProfile?
    else []
  (named.map controlAction).bind fun a =>
    if a.controlId.isEmpty then none else some { a with resultCode := code, profiles }

/-- The provider of a profile that a display control ran. -/
def displayControlProvider : String := "DisplayControlProvider"

/-- The findings about display controls and the verification of claims. -/
def readDisplayControl (handler : String) (r : HandlerResult) : Findings :=
  let findings : Findings :=
    { Findings.ofResult r with
      hasVerificationContext :=
        isPartOf "C2CVER" ((r.statebagText? "ComplexItems").getD "").toList
      isVerification :=
        (Handler.isCalled Handler.claimVerification handler &&
            r.predicateResult ≠ some "False") ||
          (r.record? "Verification").isSome }
  match (if Handler.isCalled Handler.controlResponse handler then controlActionOf? r else none)
  with
  | none => findings
  | some a =>
    { findings with
      controlAction := some a
      profiles := a.profiles.map ControlProfile.id
      profileDetails := a.profiles.map fun p =>
        { id := p.id
          providerType := .text displayControlProvider
          transformations := p.transformations } }

/-! ### Interpreting -/

/-- The findings about a group with a result, for all interpreters that look at a group
alone. -/
def read (i : Interpreter) (c : Context) (r : HandlerResult) : Findings :=
  match i with
  | blank => {}
  | orchestration => {}
  | statebagOnly => .ofResult r
  | stepInvocation => readStepInvocation r
  | exchange => readExchange c.handler r
  | transformation => readTransformation r
  | realmDiscovery => readRealmDiscovery r
  | subJourney => readSubJourney c.handler r
  | selfAssertedRedirect =>
    { Findings.ofResult r with actionHandler := some Handler.selfAssertedRedirect }
  | selfAssertedValidation => readSelfAssertedValidation r
  | selfAssertedAction =>
    { Findings.ofResult r with
      actionHandler := some Handler.selfAssertedAction
      finalizeStep := true
      stepResult := some .success }
  | completion => readCompletion c.handler r
  | responseValidation =>
    { Findings.ofResult r with
      selected := r.statebagText? "TAGE"
      interaction := interactionOf? r }
  | protocolProbe => readProtocolProbe r
  | session => readSession c.handler r
  | pageSettings => readPageSettings c.statebag r
  | errorReport => readErrorReport c.handler r
  | displayControl => readDisplayControl c.handler r

/-- The findings about a group. One without a result means nothing. The blank interpreter
has none. -/
def interpret (i : Interpreter) (m : Orchestration) (c : Context) : Option Interpretation :=
  if i = blank then none
  else
    match c.result with
    | none => some ⟨{}, m, none⟩
    | some r =>
      if i = orchestration then some (readOrchestration m c r)
      else some ⟨i.read c r, m, none⟩

end Interpreter
end TrustFramework
