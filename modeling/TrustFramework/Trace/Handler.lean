import TrustFramework.Trace.Evidence

/-!
# Handlers of the engine

The names by which the engine calls its handlers. A handler may also be called by
the last part of its name alone.

* `Handler.names` of each family are lists, in the order in which they are tried.
* `Handler.isCalled` — whether a name calls a handler, by its full name or in short.
-/

namespace TrustFramework
namespace Handler

/-- A handler of the state machine. -/
def ofStateMachine (name : String) : String := "Web.TPEngine.StateMachineHandlers." ++ name

/-- A handler of sessions. -/
def ofSession (name : String) : String := "Web.TPEngine.SSO." ++ name

/-- Moves the journey from step to step. -/
def orchestration : String := "Web.TPEngine.OrchestrationManager"

/-- Decides whether a step runs. -/
def stepInvocation : String := ofStateMachine "ShouldOrchestrationStepBeInvokedHandler"

/-- Ask whether an exchange is a call to a service. -/
def protocolProbes : List String :=
  ["IsClaimsExchangeProtocolAServiceCallHandler", "IsClaimsExchangeProtocolARedirectionHandler",
    "IsClaimsExchangeProtocolAnApiHandler"].map ofStateMachine

/-- Runs an exchange of claims. -/
def exchangeAction : String := ofStateMachine "ClaimsExchangeActionHandler"

/-- Sends the user elsewhere for an exchange of claims. -/
def exchangeRedirect : String := ofStateMachine "ClaimsExchangeRedirectHandler"

/-- Takes what an exchange of claims gave. -/
def exchangeSubmit : String := ofStateMachine "ClaimsExchangeSubmitHandler"

/-- Offers exchanges of claims. -/
def exchangeSelect : String := ofStateMachine "ClaimsExchangeSelectHandler"

/-- The handlers of exchanges. -/
def exchanges : List String := [exchangeAction, exchangeRedirect, exchangeSubmit, exchangeSelect]

/-- The handlers that run claims transformations. -/
def transformations : List String :=
  ["InputClaimsTransformationHandler", "OutputClaimsTransformationHandler",
    "PersistedClaimsTransformationHandler", "ClientInputClaimsTransformationHandler",
    "ClaimsTransformationActionHandler"].map ofStateMachine

/-- Offers the providers a user may come from. -/
def realmDiscoveryAction : String := ofStateMachine "HomeRealmDiscoveryActionHandler"

/-- The handlers that find out where a user comes from. -/
def realmDiscovery : List String :=
  [ofStateMachine "HomeRealmDiscoveryHandler", realmDiscoveryAction]

/-- Calls a sub-journey and comes back. -/
def subJourneyDispatch : String := ofStateMachine "SubJourneyDispatchActionHandler"

/-- Goes on in a sub-journey. -/
def subJourneyTransfer : String := ofStateMachine "SubJourneyTransferActionHandler"

/-- Leaves a sub-journey. -/
def subJourneyExit : String := ofStateMachine "SubJourneyExitActionHandler"

/-- The handlers of sub-journeys. -/
def subJourneys : List String :=
  [ofStateMachine "EnqueueNewJourneyHandler", subJourneyDispatch, subJourneyTransfer,
    subJourneyExit]

/-- Sends the user to a page of the policy's own. -/
def selfAssertedRedirect : String :=
  ofStateMachine "SelfAssertedAttributeProviderRedirectHandler"

/-- Validates what a user entered on a page. -/
def selfAssertedValidation : String := ofStateMachine "SelfAssertedMessageValidationHandler"

/-- Takes what a user entered on a page. -/
def selfAssertedAction : String := ofStateMachine "SelfAssertedAttributeProviderActionHandler"

/-- The handlers that end a journey. -/
def completions : List String :=
  ["SendClaimsHandler", "SendClaimsActionHandler", "SendRelyingPartyResponseHandler",
    "SendResponseHandler"].map ofStateMachine

/-- Validates the answer of a page. -/
def responseValidation : String := ofStateMachine "ValidateApiResponseHandler"

/-- Starts a session anew. -/
def sessionReset : String := ofSession "ResetSSOSessionHandler"

/-- Asks whether a profile takes part in the session. -/
def sessionParticipant : String := ofSession "IsSSOSessionParticipantHandler"

/-- Makes a session active. -/
def sessionActivation : String := ofSession "ActivateSSOSessionHandler"

/-- The handlers of sessions. -/
def sessions : List String :=
  [sessionReset, sessionParticipant, ofSession "SSOSessionHandler", sessionActivation]

/-- Shows the pages. -/
def pageManager : String := "Web.TPEngine.Api.ApiUIManager"

/-- Answers with an error. -/
def sendError : String := ofStateMachine "SendErrorHandler"

/-- The handlers that report errors. -/
def errors : List String := [ofStateMachine "InitiatingMessageValidationHandler", sendError]

/-- Answers the action of a display control. -/
def controlResponse : String := ofStateMachine "SendDisplayControlActionResponseHandler"

/-- Asks whether a claim is to be verified. -/
def claimVerification : String := ofStateMachine "IsClaimVerificationRequestHandler"

/-- The handlers of display controls. -/
def displayControls : List String :=
  [ofStateMachine "IsDisplayControlActionRequestHandler", controlResponse, claimVerification]

/-- Whether a name calls a handler, in full or by its last part. -/
def isCalled (handler name : String) : Bool := shortName name = shortName handler

/-- Whether a text is part of a name. -/
def occursIn (handler name : String) : Bool := isPartOf handler name.toList

end Handler
end TrustFramework
