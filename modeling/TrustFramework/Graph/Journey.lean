import TrustFramework.Entity.Extraction
import TrustFramework.Graph.Basic
import TrustFramework.Policy.Fault

/-!
# Drawing journeys

The graph of a journey has a node for every step between a start and an end. A
step with preconditions has a node for them before it, with one edge into the step
and one past it. A step that calls a sub-journey is a group with the graph of that
sub-journey inside.

* `Atlas` — what journeys are drawn from.
* `Drawing` — a graph in the making, with what was missing.
* `Atlas.drawSteps`, `Atlas.drawJourney` — the graph of steps, and of a journey.
* `Atlas.ends` — whether the sub-journeys inside a journey come to an end.
* `Atlas.drawAll` — the graphs of all journeys, one of them the main one.
-/

namespace TrustFramework

/-- What journeys are drawn from: a policy and the profiles its steps refer to. -/
structure Atlas where
  root : Value
  profiles : Collection TechnicalProfile := []

/-- The atlas of a policy tree. -/
def Atlas.ofTree (tree : Value) (profiles : Collection TechnicalProfile) : Atlas :=
  ⟨tree.get Policy.rootName, profiles⟩

/-- A graph in the making. -/
structure Drawing where
  graph : Graph := {}
  warnings : List String := []

namespace Drawing

/-- One more node, and the node as the graph took it. -/
def addNode (d : Drawing) (n : Graph.Node) : Drawing × Graph.Node :=
  let (graph, node) := d.graph.addNode n
  ({ d with graph }, node)

/-- An edge between two nodes. -/
def connect (d : Drawing) (source target : String) (handle : Option String) : Drawing :=
  { d with graph := (d.graph.connect source target handle).1 }

/-- One more warning. -/
def warn (d : Drawing) (warning : String) : Drawing :=
  { d with warnings := d.warnings ++ [warning] }

/-- Edges from open exits to a node. -/
def connectExits (d : Drawing) (exits : List (String × Option String)) (target : String) :
    Drawing :=
  exits.foldl (fun d exit => d.connect exit.1 target exit.2) d

end Drawing

/-! ### Labels and data -/

/-- A precondition in words. -/
def Precondition.label (p : Precondition) : String :=
  match p.kind, p.values with
  | "ClaimsExist", v :: _ => "\x60" ++ v ++ "\x60 has value"
  | "ClaimEquals", v :: w :: _ => "\x60" ++ v ++ "\x60 is \x60" ++ w ++ "\x60"
  | kind, _ => kind

/-- The profiles a step refers to: those of its exchanges and its issuer. -/
def OrchestrationStep.references (s : OrchestrationStep) : List String :=
  ((s.exchanges.map ClaimsExchangeRef.profile) ++ [s.issuerProfile]).filterMap fun id =>
    id.filter fun id => !id.isEmpty

/-- The identifiers of a step's exchanges. -/
def OrchestrationStep.exchangeIds (s : OrchestrationStep) : List String :=
  (s.exchanges.map ClaimsExchangeRef.id).filter fun id => !id.isEmpty

namespace Atlas

/-- The sub-journeys of the policy, by identifier. -/
def subJourneys (atlas : Atlas) : Fields Value :=
  Fields.ofPairs ((Policy.Node.children atlas.root ["SubJourneys", "SubJourney"]).filterMap
    fun node => (Policy.Node.id? node).map fun id => (id, node))

/-- The user journeys of the policy that have an identifier. -/
def journeys (atlas : Atlas) : List (String × Value) :=
  (Policy.Node.children atlas.root ["UserJourneys", "UserJourney"]).filterMap fun node =>
    (Policy.Node.id? node).map fun id => (id, node)

/-- The identifiers of the user journeys. -/
def journeyIds (atlas : Atlas) : List String := atlas.journeys.map Prod.fst

/-- The journey that the relying party starts with, if it names one. -/
def defaultJourney? (atlas : Atlas) : Option String :=
  (Policy.Node.children atlas.root ["RelyingParty", "DefaultUserJourney"]).findSome?
    fun node => Policy.Node.solidAttribute? node "ReferenceId"

/-- The claims that the relying party sends. -/
def relyingPartyClaims (atlas : Atlas) : List ClaimReference :=
  match Policy.Node.children atlas.root ["RelyingParty", "TechnicalProfile"] with
  | [] => []
  | profile :: _ => ClaimReference.readAll profile "InputClaims" "InputClaim"

/-- The profiles that a step refers to and the atlas knows. -/
def profilesOf (atlas : Atlas) (s : OrchestrationStep) : List (Version TechnicalProfile) :=
  s.references.filterMap atlas.profiles.effective?

/-- Whether all profiles of a step are known and speak no protocol. -/
def isProtocolLess (atlas : Atlas) (s : OrchestrationStep) : Bool :=
  let profiles := atlas.profilesOf s
  !s.references.isEmpty && profiles.length == s.references.length &&
    profiles.all fun v => v.body.isProtocolLess

/-- The type of a step's node. -/
def stepType (atlas : Atlas) (s : OrchestrationStep) : NodeType :=
  match s.kind with
  | "CombinedSignInAndSignUp" => .combinedSignInAndSignUp
  | "GetClaims" => .getClaims
  | "ClaimsExchange" => if atlas.isProtocolLess s then .getClaims else .claimsExchange
  | _ => .plain

/-- The label of a step's node. -/
def stepLabel (atlas : Atlas) (s : OrchestrationStep) : String :=
  match s.kind with
  | "CombinedSignInAndSignUp" => "Sign in / Sign up"
  | "GetClaims" =>
    match (atlas.profilesOf s).head?.bind fun v => v.body.displayName with
    | some label => if label.isEmpty then "GetClaims" else label
    | none => "GetClaims"
  | "ClaimsExchange" =>
    match s.exchangeIds with
    | [] => "ClaimsExchange"
    | [id] => id
    | _ => "Claims Exchange"
  | kind => if kind.isEmpty then "Step" else kind

/-- The data of a step's node. -/
def stepData (atlas : Atlas) (s : OrchestrationStep) : Fields Value :=
  [("label", .text (atlas.stepLabel s)),
    ("stepOrder", .int s.order),
    ("stepType", .text s.kind),
    ("orchestrationStep", s.toValue),
    ("technicalProfiles", .list ((atlas.profilesOf s).map Version.toValue))] ++
  (if s.exchangeIds.isEmpty then [] else [("claimsExchanges", textsValue s.exchangeIds)]) ++
  (if s.kind = "GetClaims" && !atlas.relyingPartyClaims.isEmpty then
      [("relyingPartyInputClaims", claimsValue atlas.relyingPartyClaims)]
    else [])

/-! ### Nodes -/

/-- The node of a step that calls no sub-journey. -/
def stepNode (atlas : Atlas) (s : OrchestrationStep) (parent : Option String) : Graph.Node :=
  { id := (parent.map fun p => p ++ "-").getD "" ++ "Step" ++ toString s.order
    type := atlas.stepType s
    data := atlas.stepData s
    parent }

/-- The node of the preconditions of a step, of which `first` is the first. -/
def preconditionNode (s : OrchestrationStep) (first : Precondition) (entry : String)
    (parent : Option String) : Graph.Node :=
  { id := entry ++ "-Precondition"
    type := .conditioned
    data :=
      [("label", .text (" and ".intercalate (s.preconditions.map Precondition.label))),
        ("stepOrder", .int s.order),
        ("executeActionsIf", .bool first.executeActionsIf),
        ("action", .ofText? first.action),
        ("preconditions", .list (s.preconditions.map Precondition.toValue))]
    parent }

/-- The group of a step that calls a sub-journey. -/
def groupNode (s : OrchestrationStep) (id : String) (subJourney : Option Value)
    (parent : Option String) : Graph.Node :=
  { id
    type := .group
    data :=
      [("label", .text id),
        ("stepOrder", .int s.order),
        ("journeyType",
          .ofText? (subJourney.bind fun node => Policy.Node.attribute? node "Type")),
        ("orchestrationStep", s.toValue)] ++
      (if subJourney.isNone then [("missing", .bool true)] else [])
    parent }

/-! ### Drawing -/

/-- The way past the preconditions of a step: the other branch than into the step. -/
def gateOf (into : Bool) : String := if into then "true" else "false"

/-- The preconditions of a step drawn before its entry, if it has any. Gives the exits
that lead past the step. -/
def drawPreconditions (d : Drawing) (s : OrchestrationStep) (entry : String)
    (parent : Option String) (exits : List (String × Option String)) :
    Drawing × List (String × Option String) :=
  match s.preconditions with
  | [] => (d.connectExits exits entry, [])
  | first :: _ =>
    let (d, condition) := d.addNode (preconditionNode s first entry parent)
    let d := d.connectExits exits condition.id
    let d := d.connect condition.id entry (some (gateOf first.executeActionsIf))
    (d, [(condition.id, some (gateOf !first.executeActionsIf))])

/-- The sub-journey that a step names, or the name that a step without one has for it. -/
def subJourneyOf (s : OrchestrationStep) : String :=
  s.subJourneys.headD ("SubJourney" ++ toString s.order)

/-- The sub-journey that a step calls, if it calls one and the policy has it. -/
def calledBy? (atlas : Atlas) (s : OrchestrationStep) : Option Value :=
  if s.kind = "InvokeSubJourney" then atlas.subJourneys.get? (subJourneyOf s) else none

/-- Whether the sub-journeys that steps call, and those that these call, come to an end
within a depth. -/
def endsWithin (atlas : Atlas) : (bound : Nat) → List OrchestrationStep → Bool
  | 0, _ => false
  | bound + 1, steps => (steps.filterMap atlas.calledBy?).all fun subJourney =>
    endsWithin atlas bound (OrchestrationStep.readAll subJourney)

/-- Steps drawn between a start and an end. `bound` is more than the sub-journeys that
may lie inside each other. -/
def drawSteps (atlas : Atlas) : (bound : Nat) → (parent : Option String) →
    List OrchestrationStep → Drawing → Drawing
  | 0, _, _, d => d
  | bound + 1, parent, steps, d =>
    let here := parent.getD "root"
    let (d, start) := d.addNode
      { id := here ++ "-start", type := .start, data := [("label", .text "Start")], parent }
    let (d, exits) := steps.foldl (fun (d, exits) s =>
      let (d, entry) :=
        if s.kind = "InvokeSubJourney" then
          let d := if s.subJourneys.isEmpty then
              d.warn ("InvokeSubJourney step " ++ toString s.order ++
                " has no SubJourneyReferenceId")
            else d
          let id := subJourneyOf s
          let subJourney := atlas.subJourneys.get? id
          let (d, group) := d.addNode (groupNode s id subJourney parent)
          match subJourney with
          | none => (d.warn ("SubJourney with ID '" ++ id ++ "' not found."), group.id)
          | some node =>
            (drawSteps atlas bound (some group.id) (OrchestrationStep.readAll node) d, group.id)
        else
          let (d, node) := d.addNode (atlas.stepNode s parent)
          (d, node.id)
      let (d, past) := drawPreconditions d s entry parent exits
      (d, (entry, none) :: past)) (d, [(start.id, none)])
    let (d, finish) := d.addNode
      { id := here ++ "-end", type := .finish, data := [("label", .text "End")], parent }
    d.connectExits exits finish.id

/-- More than the sub-journeys of the policy that may lie inside each other, where none
calls itself. -/
def depthBound (atlas : Atlas) : Nat := atlas.subJourneys.length + 1

/-- Whether the sub-journeys inside a journey come to an end. -/
def ends (atlas : Atlas) (journey : Value) : Bool :=
  atlas.endsWithin atlas.depthBound (OrchestrationStep.readAll journey)

/-- The graph of a journey with the warnings it gives rise to. -/
def drawJourney (atlas : Atlas) (journey : Value) : Drawing :=
  atlas.drawSteps atlas.depthBound none (OrchestrationStep.readAll journey) {}

end Atlas

/-- The graphs of all journeys of a policy. -/
structure JourneyGraphs where
  /-- The journey whose graph is the main one. -/
  main : String
  subgraphs : Fields Graph
  warnings : List String

namespace JourneyGraphs

/-- The main graph. -/
def mainGraph (graphs : JourneyGraphs) : Graph := (graphs.subgraphs.get? graphs.main).getD {}

/-- The first of some candidates that is among the journeys, else the last journey,
with a warning for every candidate passed over. -/
def choose (known : List String) (last : String) : List String → String × List String
  | [] => (last, [])
  | candidate :: rest =>
    if known.contains candidate then (candidate, [])
    else
      let (chosen, warnings) := choose known last rest
      (chosen, ("UserJourney '" ++ candidate ++ "' not found; using the last journey") :: warnings)

end JourneyGraphs

/-- The graphs of all journeys. The main one is that of the journey asked for, else
that of the journey the relying party starts with, else that of the last journey. -/
def Atlas.drawAll (atlas : Atlas) (wanted : Option String) :
    Except Policy.Fault JourneyGraphs :=
  match atlas.journeys.getLast? with
  | none => .error .noJourneys
  | some (last, _) =>
    if atlas.journeys.all fun (_, node) => atlas.ends node then
      let drawings := atlas.journeys.map fun (id, node) => (id, atlas.drawJourney node)
      let candidates := ((wanted.filter fun id => !id.isEmpty).toList ++
        atlas.defaultJourney?.toList)
      let (main, passed) := JourneyGraphs.choose atlas.journeyIds last candidates
      .ok
        { main
          subgraphs := Fields.ofPairs (drawings.map fun (id, d) => (id, d.graph))
          warnings := (drawings.flatMap fun (_, d) => d.warnings) ++ passed }
    else .error .endlessJourney

end TrustFramework
