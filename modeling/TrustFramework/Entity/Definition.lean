import TrustFramework.Entity.Step

/-!
# What policies define

Seven kinds of definitions are kept: claim types, technical profiles, claims
transformations, display controls, user journeys, sub-journeys and claims
providers. Each says how a derived definition is laid onto its base: a scalar of
the derived one wins if it is there, texts and claims add up, steps go by their
numbers, and any other list of the derived one wins if it has items.

* `Definition` — the element that defines a thing, layering, and the report.
* `layerList` — lists of which the derived one wins.
-/

namespace TrustFramework

/-- What the definitions of a kind have in common. -/
class Definition (α : Type) where
  /-- The name of the element that holds one. -/
  element : String
  /-- A derived definition, given last, laid onto its base. -/
  layer : α → α → α
  /-- The fields of a report. -/
  fields : α → Fields Value

/-- A derived list laid onto its base: it wins if it has items. -/
def layerList {α : Type} (base derived : List α) : List α :=
  if derived.isEmpty then base else derived

/-- Derived texts laid onto their base: those of both, without repetition. -/
def layerTexts (base derived : List String) : List String := distinct (base ++ derived)

/-- Claims for a report. -/
def claimsValue (claims : List ClaimReference) : Value :=
  .list (claims.map ClaimReference.toValue)

/-- Steps for a report. -/
def stepsValue (steps : List OrchestrationStep) : Value :=
  .list (steps.map OrchestrationStep.toValue)

/-! ### Claim types -/

/-- One of the values a claim may take. -/
structure EnumerationItem where
  value : String
  text : String
  selectByDefault : Bool
  deriving DecidableEq, Repr

/-- The values a claim is restricted to. -/
structure ClaimRestriction where
  pattern : Option String
  helpText : Option String
  enumeration : List EnumerationItem
  deriving DecidableEq, Repr

/-- A claim that journeys may carry. -/
structure ClaimType where
  displayName : Option String
  dataType : Option String
  userInputType : Option String
  mask : Option String
  adminHelpText : Option String
  userHelpText : Option String
  restriction : Option ClaimRestriction
  predicateValidation : Option String
  deriving DecidableEq, Repr

/-- A restriction for a report. -/
def ClaimRestriction.toValue (r : ClaimRestriction) : Value :=
  .object
    [("pattern", .ofText? r.pattern),
      ("patternHelpText", .ofText? r.helpText),
      ("enumeration", .list (r.enumeration.map fun item =>
        .object [("value", .text item.value), ("text", .text item.text),
          ("selectByDefault", .bool item.selectByDefault)]))]

instance : Definition ClaimType where
  element := "ClaimType"
  layer base derived :=
    { displayName := derived.displayName <|> base.displayName
      dataType := derived.dataType <|> base.dataType
      userInputType := derived.userInputType <|> base.userInputType
      mask := derived.mask <|> base.mask
      adminHelpText := derived.adminHelpText <|> base.adminHelpText
      userHelpText := derived.userHelpText <|> base.userHelpText
      restriction := derived.restriction <|> base.restriction
      predicateValidation := derived.predicateValidation <|> base.predicateValidation }
  fields c :=
    [("displayName", .ofText? c.displayName),
      ("dataType", .ofText? c.dataType),
      ("userInputType", .ofText? c.userInputType),
      ("mask", .ofText? c.mask),
      ("adminHelpText", .ofText? c.adminHelpText),
      ("userHelpText", .ofText? c.userHelpText),
      ("restriction", (c.restriction.map ClaimRestriction.toValue).getD .null),
      ("predicateValidationReference", .ofText? c.predicateValidation)]

/-! ### Claims transformations -/

/-- A constant that a transformation takes. -/
structure InputParameter where
  id : String
  dataType : Option String
  value : Option String
  deriving DecidableEq, Repr

/-- A computation of claims from claims. -/
structure ClaimsTransformation where
  method : Option String
  inputClaims : List ClaimReference
  inputParameters : List InputParameter
  outputClaims : List ClaimReference
  deriving DecidableEq, Repr

instance : Definition ClaimsTransformation where
  element := "ClaimsTransformation"
  layer base derived :=
    { method := derived.method <|> base.method
      inputClaims := layerClaims base.inputClaims derived.inputClaims
      inputParameters := layerList base.inputParameters derived.inputParameters
      outputClaims := layerClaims base.outputClaims derived.outputClaims }
  fields t :=
    [("transformationMethod", .ofText? t.method),
      ("inputClaims", claimsValue t.inputClaims),
      ("inputParameters", .list (t.inputParameters.map fun p =>
        .object [("id", .text p.id), ("dataType", .ofText? p.dataType),
          ("value", .ofText? p.value)])),
      ("outputClaims", claimsValue t.outputClaims)]

/-! ### Display controls -/

/-- What a display control can be asked to do, by the profiles that do it. -/
structure DisplayControlAction where
  id : String
  profiles : List String
  deriving DecidableEq, Repr

/-- A part of a page that shows claims and acts on them. -/
structure DisplayControl where
  controlType : Option String
  displayClaims : List ClaimReference
  actions : List DisplayControlAction
  deriving DecidableEq, Repr

instance : Definition DisplayControl where
  element := "DisplayControl"
  layer base derived :=
    { controlType := derived.controlType <|> base.controlType
      displayClaims := layerClaims base.displayClaims derived.displayClaims
      actions := layerList base.actions derived.actions }
  fields c :=
    [("userInterfaceControlType", .ofText? c.controlType),
      ("displayClaims", claimsValue c.displayClaims),
      ("actions", .list (c.actions.map fun a =>
        .object [("id", .text a.id),
          ("validationTechnicalProfiles", textsValue a.profiles)]))]

/-! ### Claims providers -/

/-- A party that claims come from, with the profiles it defines. -/
structure ClaimsProvider where
  displayName : Option String
  profiles : List String
  deriving DecidableEq, Repr

instance : Definition ClaimsProvider where
  element := "ClaimsProvider"
  layer base derived :=
    { displayName := derived.displayName <|> base.displayName
      profiles := layerTexts base.profiles derived.profiles }
  fields p :=
    [("displayName", .ofText? p.displayName), ("technicalProfileIds", textsValue p.profiles)]

/-! ### Technical profiles -/

/-- How a profile rests on another: as an override of its own definition, or by
including it. -/
inductive Descent where
  | direct
  | included
  deriving DecidableEq, Repr

/-- A definition that a profile rests on. -/
structure Ancestor where
  profileId : String
  policyId : String
  fileName : String
  descent : Descent
  deriving DecidableEq, Repr

/-- A way to exchange claims with a party, or to compute them. -/
structure TechnicalProfile where
  displayName : Option String
  description : Option String
  protocolName : Option String
  protocolHandler : Option String
  providerName : Option String
  claimsProvider : Option String
  metadata : Fields String
  inputTransformations : List String
  inputClaims : List ClaimReference
  displayClaims : List ClaimReference
  persistedClaims : List ClaimReference
  outputClaims : List ClaimReference
  outputTransformations : List String
  displayControls : List String
  validationProfiles : List String
  /-- The profile this one includes. -/
  includes : Option String
  /-- The profile that manages the session for this one. -/
  sessionProfile : Option String
  /-- What the profile rests on; not part of the definition itself. -/
  ancestors : List Ancestor := []
  deriving DecidableEq, Repr

/-- Whether a profile speaks no protocol. -/
def TechnicalProfile.isProtocolLess (p : TechnicalProfile) : Bool :=
  p.protocolName == none || p.protocolName == some "" || p.protocolName == some "None"

/-- An ancestor for a report. -/
def Ancestor.toValue (a : Ancestor) : Value :=
  .object
    [("profileId", .text a.profileId),
      ("policyId", .text a.policyId),
      ("fileName", .text a.fileName),
      ("inheritanceType", .text (match a.descent with
        | .direct => "Direct"
        | .included => "Include"))]

instance : Definition TechnicalProfile where
  element := "TechnicalProfile"
  layer base derived :=
    { displayName := derived.displayName <|> base.displayName
      description := derived.description <|> base.description
      protocolName := derived.protocolName <|> base.protocolName
      protocolHandler := derived.protocolHandler <|> base.protocolHandler
      providerName := derived.providerName <|> base.providerName
      claimsProvider := derived.claimsProvider <|> base.claimsProvider
      metadata := base.metadata.update derived.metadata
      inputTransformations := layerTexts base.inputTransformations derived.inputTransformations
      inputClaims := layerClaims base.inputClaims derived.inputClaims
      displayClaims := layerClaims base.displayClaims derived.displayClaims
      persistedClaims := layerClaims base.persistedClaims derived.persistedClaims
      outputClaims := layerClaims base.outputClaims derived.outputClaims
      outputTransformations := layerTexts base.outputTransformations derived.outputTransformations
      displayControls := layerTexts base.displayControls derived.displayControls
      validationProfiles := layerTexts base.validationProfiles derived.validationProfiles
      includes := derived.includes <|> base.includes
      sessionProfile := derived.sessionProfile <|> base.sessionProfile
      ancestors := derived.ancestors }
  fields p :=
    [("displayName", .ofText? p.displayName),
      ("description", .ofText? p.description),
      ("protocolName", .ofText? p.protocolName),
      ("protocolHandler", .ofText? p.protocolHandler),
      ("providerName", .ofText? p.providerName),
      ("claimsProviderDisplayName", .ofText? p.claimsProvider),
      ("metadata", .object (p.metadata.mapValues .text)),
      ("inputClaimsTransformations", textsValue p.inputTransformations),
      ("inputClaims", claimsValue p.inputClaims),
      ("displayClaims", claimsValue p.displayClaims),
      ("persistedClaims", claimsValue p.persistedClaims),
      ("outputClaims", claimsValue p.outputClaims),
      ("outputClaimsTransformations", textsValue p.outputTransformations),
      ("displayControls", textsValue p.displayControls),
      ("validationTechnicalProfiles", textsValue p.validationProfiles),
      ("includeTechnicalProfile", .ofText? p.includes),
      ("useTechnicalProfileForSso", .ofText? p.sessionProfile),
      ("inheritanceChain", .list (p.ancestors.map Ancestor.toValue))]

/-! ### Journeys -/

/-- A journey that a relying party can start. -/
structure UserJourney where
  issuerProfile : Option String
  steps : List OrchestrationStep
  deriving DecidableEq, Repr

instance : Definition UserJourney where
  element := "UserJourney"
  layer base derived :=
    { issuerProfile := derived.issuerProfile <|> base.issuerProfile
      steps := layerSteps base.steps derived.steps }
  fields j :=
    [("defaultCpimIssuerTechnicalProfileReferenceId", .ofText? j.issuerProfile),
      ("orchestrationSteps", stepsValue j.steps)]

/-- A journey that other journeys call. -/
structure SubJourney where
  kind : Option String
  steps : List OrchestrationStep
  deriving DecidableEq, Repr

instance : Definition SubJourney where
  element := "SubJourney"
  layer base derived :=
    { kind := derived.kind <|> base.kind
      steps := layerSteps base.steps derived.steps }
  fields j := [("journeyType", .ofText? j.kind), ("orchestrationSteps", stepsValue j.steps)]

end TrustFramework
