import TrustFramework.Value

/-!
# Facts about steps

What telemetry tells about a step besides its outcome: the profiles that ran with
the transformations in them, the claims that were mapped, the calls that went out,
the page that was shown, and what the user did. Identifiers are kept as they were
recorded, whatever value they are.

* `TransformationDetail`, `ProfileDetail`, `ClaimMapping`, `BackendCall`, `PageSettings`,
  `ControlAction`, `Interaction` — the facts.
-/

namespace TrustFramework

/-- Some value or nothing, as a value. -/
def Value.ofOption (v : Option Value) : Value := v.getD .null

/-- A claim with its value. -/
structure ClaimValue where
  claimType : Value
  value : String := ""
  deriving Repr, Inhabited

/-- A parameter with its value. -/
structure ParameterValue where
  id : Value
  value : String := ""
  deriving Repr, Inhabited

/-- A claims transformation that ran. -/
structure TransformationDetail where
  id : Value
  inputClaims : List ClaimValue := []
  inputParameters : List ParameterValue := []
  outputClaims : List ClaimValue := []
  deriving Repr, Inhabited

/-- A technical profile that ran. -/
structure ProfileDetail where
  id : Value
  providerType : Value := .text ""
  protocolType : Value := .null
  transformations : List TransformationDetail := []
  /-- The claims when the profile was last reported. -/
  claims : Option (Fields String) := none
  deriving Repr, Inhabited

/-- A claim of a partner and the claim of the policy it goes into. -/
structure ClaimMapping where
  partnerClaimType : Value
  policyClaimType : Value
  deriving Repr, Inhabited

/-- A call to a service. -/
structure BackendCall where
  requestUri : Option String := none
  requestType : Option String := none
  statusCode : Option Nat := none
  rawResponse : Option String := none
  response : Value := .null
  deriving Repr, Inhabited

/-- The page that was shown; what is unknown is nothing. -/
structure PageSettings where
  contentDefinition : Value := .null
  pageType : Value := .null
  remoteResource : Value := .null
  pageId : Value := .null
  language : Value := .null
  config : Option (Fields Value) := none
  tenantBranding : Option (Fields Value) := none
  deriving Repr, Inhabited

/-- A technical profile that a display control ran. -/
structure ControlProfile where
  id : Value
  transformations : List TransformationDetail := []
  mappings : List ClaimMapping := []
  deriving Repr, Inhabited

/-- What a display control was asked to do. -/
structure ControlAction where
  controlId : String
  action : String := ""
  resultCode : Option String := none
  profiles : List ControlProfile := []
  deriving Repr, Inhabited

/-- How an interaction with the user went. -/
structure Interaction where
  outcome : String
  success : Bool
  errorMessage : Option String := none
  errorHresult : Option String := none
  deriving DecidableEq, Repr, Inhabited

namespace Interaction

/-- The outcome of an interaction that went on. -/
def continued : String := "Continue"

/-- The outcome of an interaction that the user gave up. -/
def cancelled : String := "Cancelled"

/-- The outcome of an interaction that failed. -/
def failed : String := "Error"

end Interaction

/-- Whether nothing is known about a call. -/
def BackendCall.isEmpty (call : BackendCall) : Bool :=
  call.requestUri.isNone && call.requestType.isNone && call.statusCode.isNone &&
    call.rawResponse.isNone && call.response.isNull

/-- Whether nothing is known about a page. -/
def PageSettings.isEmpty (page : PageSettings) : Bool :=
  page.contentDefinition.isNull && page.pageType.isNull && page.remoteResource.isNull &&
    page.pageId.isNull && page.language.isNull && page.config.isNone &&
    page.tenantBranding.isNone

/-! ### Reports -/

/-- Texts by name as a value. -/
def textFields (fields : Fields String) : Value := .object (fields.mapValues .text)

/-- A claim with its value for a report. -/
def ClaimValue.toValue (c : ClaimValue) : Value :=
  .object [("claimType", c.claimType), ("value", .text c.value)]

/-- A parameter with its value for a report. -/
def ParameterValue.toValue (p : ParameterValue) : Value :=
  .object [("id", p.id), ("value", .text p.value)]

/-- A transformation for a report. -/
def TransformationDetail.toValue (t : TransformationDetail) : Value :=
  .object
    [("id", t.id),
      ("inputClaims", .list (t.inputClaims.map ClaimValue.toValue)),
      ("inputParameters", .list (t.inputParameters.map ParameterValue.toValue)),
      ("outputClaims", .list (t.outputClaims.map ClaimValue.toValue))]

/-- A profile for a report. -/
def ProfileDetail.toValue (d : ProfileDetail) : Value :=
  .object
    [("id", d.id),
      ("providerType", d.providerType),
      ("protocolType", d.protocolType),
      ("claimsTransformations", .list (d.transformations.map TransformationDetail.toValue)),
      ("claimsSnapshot", Value.ofOption (d.claims.map textFields))]

/-- A mapping for a report. -/
def ClaimMapping.toValue (m : ClaimMapping) : Value :=
  .object [("partnerClaimType", m.partnerClaimType), ("policyClaimType", m.policyClaimType)]

/-- A call for a report. -/
def BackendCall.toValue (call : BackendCall) : Value :=
  .object
    [("requestUri", .ofText? call.requestUri),
      ("requestType", .ofText? call.requestType),
      ("statusCode", Value.ofOption (call.statusCode.map fun n => .int n)),
      ("rawResponse", .ofText? call.rawResponse),
      ("response", call.response)]

/-- A page for a report. -/
def PageSettings.toValue (page : PageSettings) : Value :=
  .object
    [("contentDefinition", page.contentDefinition),
      ("pageType", page.pageType),
      ("remoteResource", page.remoteResource),
      ("pageId", page.pageId),
      ("language", page.language),
      ("config", Value.ofOption (page.config.map .object)),
      ("tenantBranding", Value.ofOption (page.tenantBranding.map .object))]

/-- A profile of a display control for a report. -/
def ControlProfile.toValue (p : ControlProfile) : Value :=
  .object
    [("technicalProfileId", p.id),
      ("claimsTransformations", .list (p.transformations.map TransformationDetail.toValue)),
      ("claimMappings", .list (p.mappings.map ClaimMapping.toValue))]

/-- The action of a display control for a report. -/
def ControlAction.toValue (a : ControlAction) : Value :=
  .object
    [("displayControlId", .text a.controlId),
      ("action", .text a.action),
      ("resultCode", .ofText? a.resultCode),
      ("technicalProfiles", .list (a.profiles.map ControlProfile.toValue))]

/-- An interaction for a report. -/
def Interaction.toValue (i : Interaction) : Value :=
  .object
    [("outcome", .text i.outcome),
      ("success", .bool i.success),
      ("errorMessage", .ofText? i.errorMessage),
      ("errorHresult", .ofText? i.errorHresult)]

end TrustFramework
