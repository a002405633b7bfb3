import TrustFramework.Entity.Claim
import TrustFramework.Policy.Merge

/-!
# Orchestration steps

A journey is a list of steps in the order of their numbers. A step of a derived
journey takes the place of the step with its number.

* `OrchestrationStep` — a step.
* `OrchestrationStep.readAll` — the steps of a journey's node, by number.
* `layerSteps` — the steps of a derived journey laid onto those of its base.
-/

namespace TrustFramework

/-- A way to go on that a step offers, by the technical profile behind it. -/
structure ClaimsExchangeRef where
  id : String
  profile : Option String
  deriving DecidableEq, Repr

/-- A choice that a step shows, by the exchange it leads to. -/
structure SelectionRef where
  target : Option String
  validation : Option String
  deriving DecidableEq, Repr

/-- A condition under which a step is passed over or run. -/
structure Precondition where
  kind : String
  executeActionsIf : Bool
  values : List String
  action : Option String
  deriving DecidableEq, Repr

/-- A step of a journey. -/
structure OrchestrationStep where
  order : Int
  kind : String
  contentDefinition : Option String
  issuerProfile : Option String
  exchanges : List ClaimsExchangeRef
  selections : List SelectionRef
  preconditions : List Precondition
  subJourneys : List String
  deriving DecidableEq, Repr

/-- Texts as a value. -/
def textsValue (texts : List String) : Value := .list (texts.map .text)

/-! ### Reading -/

namespace Precondition

/-- The condition a node describes, unless the node is no object. -/
def read? (node : Value) : Option Precondition :=
  if node.isObject then some
    { kind := attributeOrEmpty node "Type"
      executeActionsIf := flag node "ExecuteActionsIf"
      values := (Policy.Node.asList (node.get "Value")).map fun v =>
        (Policy.Node.text? v).getD ""
      action := Policy.Node.textOf? node "Action" }
  else none

/-- A condition for a report. -/
def toValue (p : Precondition) : Value :=
  .object
    [("type", .text p.kind),
      ("executeActionsIf", .bool p.executeActionsIf),
      ("values", textsValue p.values),
      ("action", .ofText? p.action)]

end Precondition

namespace ClaimsExchangeRef

/-- The exchange a node describes. -/
def read (node : Value) : ClaimsExchangeRef :=
  ⟨attributeOrEmpty node "Id", Policy.Node.attribute? node "TechnicalProfileReferenceId"⟩

/-- An exchange for a report. -/
def toValue (e : ClaimsExchangeRef) : Value :=
  .object [("id", .text e.id), ("technicalProfileReferenceId", .ofText? e.profile)]

end ClaimsExchangeRef

namespace SelectionRef

/-- The choice a node describes. -/
def read (node : Value) : SelectionRef :=
  ⟨Policy.Node.attribute? node "TargetClaimsExchangeId",
    Policy.Node.attribute? node "ValidationClaimsExchangeId"⟩

/-- A choice for a report. -/
def toValue (s : SelectionRef) : Value :=
  .object [("targetClaimsExchangeId", .ofText? s.target),
    ("validationClaimsExchangeId", .ofText? s.validation)]

end SelectionRef

namespace OrchestrationStep

/-- The step a node describes. -/
def read (node : Value) : OrchestrationStep :=
  { order := Policy.orderOf node
    kind := attributeOrEmpty node "Type"
    contentDefinition := Policy.Node.attribute? node "ContentDefinitionReferenceId"
    issuerProfile := Policy.Node.attribute? node "CpimIssuerTechnicalProfileReferenceId"
    exchanges := (Policy.Node.children node ["ClaimsExchanges", "ClaimsExchange"]).map
      ClaimsExchangeRef.read
    selections := (Policy.Node.children node
      ["ClaimsProviderSelections", "ClaimsProviderSelection"]).map SelectionRef.read
    preconditions := (Policy.Node.children node ["Preconditions", "Precondition"]).filterMap
      Precondition.read?
    subJourneys := referencesTo node "JourneyList" "Candidate" "SubJourneyReferenceId" }

/-- The steps of a journey, by number; steps of one number stay as they stand. -/
def readAll (journey : Value) : List OrchestrationStep :=
  let nodes := Policy.Node.children journey ["OrchestrationSteps", "OrchestrationStep"]
  ((nodes.filter Value.isObject).map read).mergeSort fun a b => a.order ≤ b.order

/-- A step for a report. -/
def toValue (s : OrchestrationStep) : Value :=
  .object
    [("order", .int s.order),
      ("type", .text s.kind),
      ("contentDefinitionReferenceId", .ofText? s.contentDefinition),
      ("cpimIssuerTechnicalProfileReferenceId", .ofText? s.issuerProfile),
      ("claimsExchanges", .list (s.exchanges.map ClaimsExchangeRef.toValue)),
      ("claimsProviderSelections", .list (s.selections.map SelectionRef.toValue)),
      ("preconditions", .list (s.preconditions.map Precondition.toValue)),
      ("subJourneyReferences", textsValue s.subJourneys)]

end OrchestrationStep

/-! ### Layering -/

/-- A step put among steps that ascend, for the one with its number if there is one. -/
def placeStep (s : OrchestrationStep) : List OrchestrationStep → List OrchestrationStep
  | [] => [s]
  | t :: rest =>
    if s.order < t.order then s :: t :: rest
    else if s.order = t.order then s :: rest
    else t :: placeStep s rest

/-- The steps of a derived journey laid onto those of its base: by number, one for
each number, the last given. -/
def layerSteps (base derived : List OrchestrationStep) : List OrchestrationStep :=
  (base ++ derived).foldl (fun steps s => placeStep s steps) []

end TrustFramework
