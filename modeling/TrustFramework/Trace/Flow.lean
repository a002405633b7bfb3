import TrustFramework.Trace.Reconstruction

/-!
# User flows

A flow is what one user did in one go: the logs of one correlation, with how it ended.

* `Flow` — a flow.
* `Flow.ofTrace`, `Flow.ofLogs` — the flow of the logs of one correlation.
* `Flow.inTurn` — the flows of groups of logs that are traced one after the other.
* `flowsOf` — the flows of all logs, by their first logs.
* `logsOfFlow` — the logs of a flow.
-/

namespace TrustFramework

/-- What one user did in one go. -/
structure Flow where
  id : String
  correlationId : String
  policyId : String
  start : Timestamp
  finish : Timestamp
  stepCount : Nat
  completed : Bool
  cancelled : Bool
  hasErrors : Bool
  logIds : List String
  /-- Whether steps had to be told apart by a window that is no span of time. -/
  overlong : Bool := false
  deriving DecidableEq, Repr

namespace Flow

/-! ### Signs in the clips -/

/-- Whether a clip is a change of state of one of some names. -/
def isTransition (names : List String) : Clip → Bool
  | .transition eventName _ => names.contains eventName
  | _ => false

/-- Whether a clip says that the user gave up. -/
def isCancellation (clip : Clip) : Bool :=
  isTransition ["Cancel", "Cancelled"] clip ||
    match clip with
    | .handlerResult r => (interactionOf? r).any fun i => i.outcome = Interaction.cancelled
    | _ => false

/-- Whether a clip reports an exception. -/
def isException : Clip → Bool
  | .fatal _ _ => true
  | .handlerResult r => r.exception.isSome
  | _ => false

/-! ### Flows -/

/-- The flow of the logs of one correlation, in the order of their times, of which `first`
is the first, with their trace. -/
def ofTrace (trace : Trace) (index : Nat) (correlationId : String) (first : LogInput)
    (logs : List LogInput) : Flow :=
  let clips := logs.flatMap LogInput.clips
  { id := correlationId ++ "-" ++ toString index
    correlationId
    policyId := first.policyId
    start := first.timestamp
    finish := (logs.getLastD first).timestamp
    stepCount := trace.steps.length
    completed := clips.any (isTransition ["SendClaims"]) || trace.steps.any TraceStep.isFinal
    cancelled := clips.any isCancellation || trace.steps.any fun s =>
      s.interaction.any fun i => i.outcome = Interaction.cancelled
    hasErrors := clips.any isException || (trace.errors.any fun e => e ≠ noSupportedEvents) ||
      trace.steps.any fun s => s.result = .error
    logIds := logs.map LogInput.id
    overlong := trace.overlong }

/-- The flow of the logs of one correlation, traced on their own. -/
def ofLogs (settings : TraceSettings) (index : Nat) (correlationId : String) (first : LogInput)
    (logs : List LogInput) : Flow :=
  ofTrace (rebuild settings logs) index correlationId first logs

/-- The flows of groups of logs with their correlations and places. The groups are traced one
after the other, all with the same registry. -/
def inTurn (settings : TraceSettings) :
    Registry → List ((String × List LogInput) × Nat) → List Flow
  | _, [] => []
  | registry, ((correlationId, group), index) :: rest =>
    let (registry, trace) := rebuildWith registry Pass.standard settings group
    ((group.head?.map fun first => ofTrace trace index correlationId first group).toList ++
      inTurn settings registry rest)

/-- A flow for a report, if the calendar has dates for its times. -/
def toValue? (f : Flow) : Option Value := do
  if f.overlong then none
  let start ← f.start.render?
  let finish ← f.finish.render?
  pure (.object
    [("id", .text f.id),
      ("correlationId", .text f.correlationId),
      ("policyId", .text f.policyId),
      ("startTime", .text start),
      ("endTime", .text finish),
      ("stepCount", .int f.stepCount),
      ("completed", .bool f.completed),
      ("cancelled", .bool f.cancelled),
      ("hasErrors", .bool f.hasErrors),
      ("logIds", .list (f.logIds.map .text))])

end Flow

/-- Logs by their correlations, in the order of the first of each. -/
def byCorrelation (logs : List LogInput) : Fields (List LogInput) :=
  logs.foldl (fun groups log =>
    Fields.alter groups log.correlationId fun known => known.getD [] ++ [log]) []

/-- The flows of all logs. -/
def flowsOf (settings : TraceSettings) (logs : List LogInput) : List Flow :=
  Flow.inTurn settings (Registry.standard settings.orchestrationReset)
    (byCorrelation (LogInput.sorted logs)).zipIdx

/-- The logs of a flow among some flows, in the order given. -/
def logsOfFlow (logs : List LogInput) (id : String) (flows : List Flow) : List LogInput :=
  match flows.find? fun f => f.id = id with
  | none => []
  | some f => logs.filter fun log => f.logIds.contains log.id

end TrustFramework
