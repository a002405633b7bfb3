import TrustFramework.Trace.Registry
import TrustFramework.Trace.Selection

/-!
# Rebuilding a journey from its logs

The logs of one correlation are taken in the order of their times. The groups and the
changes of state in each are taken in the order of the log: a group may open a step, put
facts into the open one, or close it. A step that repeats an earlier one within a short
time is folded into that one; one without a number is dropped unless it failed.

* `LogInput` — a log.
* `Rebuilding` — a trace in the making; the functions on it take one event each.
* `Rebuilding.take` — a log.
* `Trace`, `rebuild` — the trace of some logs.
-/

namespace TrustFramework

/-- A log of the recorder. -/
structure LogInput where
  id : String
  timestamp : Timestamp
  policyId : String
  correlationId : String
  clips : List Clip
  deriving Repr, Inhabited

namespace LogInput

/-- Whether a log comes before another, by time and then by identifier, or is level
with it. -/
def le (a b : LogInput) : Bool :=
  a.timestamp.instant < b.timestamp.instant ||
    (a.timestamp.instant = b.timestamp.instant && decide (a.id ≤ b.id))

/-- Logs in the order of their times. -/
def sorted (logs : List LogInput) : List LogInput := logs.mergeSort le

/-- The event that a log is about, empty without headers. -/
def event (log : LogInput) : String :=
  ((headersOf? log.clips).map Headers.eventInstance).getD ""

/-- The type of the event that headers name. -/
def eventType (headers : Option Headers) : String :=
  match headers.map Headers.eventInstance with
  | some "Event:AUTH" => "AUTH"
  | some "Event:SELFASSERTED" => "SELFASSERTED"
  | some "Event:ClaimsExchange" => "ClaimsExchange"
  | _ => "API"

end LogInput

/-- A trace in the making. -/
structure Rebuilding where
  journeys : JourneyStack
  registry : Registry
  /-- How close a step must be to the same step before it to be a repetition. -/
  window : Milliseconds
  statebag : Statebag := {}
  steps : List TraceStep := []
  errors : List String := []
  /-- The step that is open. -/
  current : Option TraceStep := none
  sequence : Nat := 0
  /-- The last steps that were no repetition, by journey and number: their places among
  the steps, and their times. -/
  seen : Fields (Nat × Timestamp) := []

namespace Rebuilding

/-- One more error. -/
def report (t : Rebuilding) (error : String) : Rebuilding :=
  { t with errors := t.errors ++ [error] }

/-! ### Closing a step -/

/-- What tells a step from others: its journey and its number. -/
def stepKey (s : TraceStep) : String := s.journeyId.shown ++ "-" ++ toString s.order

/-- Whether a step is kept: it has a number, or it failed with a message. -/
def isKept (s : TraceStep) : Bool :=
  0 < s.order || (s.result = .error && !(s.errorMessage.getD "").isEmpty)

/-- The most milliseconds that a span of time can have. -/
def longestSpan : Nat := 86399999999999999

/-- Whether one moment is at most so long after another. -/
def isWithin (window : Milliseconds) (earlier later : Timestamp) : Bool :=
  later.instant - earlier.instant ≤ window.count * 1000

/-- A closed step put among the steps: dropped, folded into the step it repeats, or at
the end. -/
def settle (t : Rebuilding) (s : TraceStep) : Rebuilding :=
  if isKept s then
    match (t.seen.get? (stepKey s)).filter fun last => isWithin t.window last.2 s.timestamp with
    | some (place, _) => { t with steps := t.steps.modify place fun first => first.absorb s }
    | none =>
      { t with
        steps := t.steps ++ [s]
        seen := t.seen.set (stepKey s) (t.steps.length, s.timestamp) }
  else t

/-- A step with the statebag as it is. -/
def snapshot (t : Rebuilding) (s : TraceStep) : TraceStep :=
  { s with statebag := t.statebag.entries, claims := t.statebag.claims }

/-- The open step closed, if there is one. -/
def close (t : Rebuilding) : Rebuilding :=
  match t.current with
  | none => t
  | some s => { t with current := none }.settle (t.snapshot s).located

/-! ### Groups -/

/-- The outcome of findings put on a step: an error with its message, else the result. -/
def outcome (f : Findings) (s : TraceStep) : TraceStep :=
  match f.stepResult with
  | none => s
  | some r =>
    match f.error.filter fun e => !e.isEmpty with
    | some message => if r = .error then s.withError message f.errorHresult else s.withResult r
    | none => s.withResult r

/-- A new step of the journey that runs. -/
def newStep (t : Rebuilding) (log : LogInput) : TraceStep :=
  let here := t.journeys.current
  { sequence := t.sequence
    timestamp := log.timestamp
    logId := log.id
    journeyId := here.id
    journeyName := here.name
    order := here.orchStep }

/-- What findings put into the statebag. -/
def takeUpdates (t : Rebuilding) (f : Findings) : Rebuilding :=
  { t with statebag := (t.statebag.update f.statebagUpdates).updateClaims f.claimsUpdates }

/-- A step opened in place of the open one. The statebag starts over; claims stay. -/
def openStep (t : Rebuilding) (f : Findings) (log : LogInput) (eventType : String) :
    Rebuilding :=
  let t := t.close
  let t := { t with statebag := t.statebag.cleared }.takeUpdates f
  let s := { t.newStep log with eventType }.placed
  let s := match f.actionHandler.filter fun h => !h.isEmpty with
    | some handler => { s with actionHandler := some handler }
    | none => s
  { t with current := some (outcome f s), sequence := t.sequence + 1 }

/-- The open step with the outcome of findings. One that closes the step leaves the
result for then, unless it is an error. -/
def outcomeOfOpen (f : Findings) (s : TraceStep) : TraceStep :=
  if f.finalizeStep && !(f.stepResult = some .error && !(f.error.getD "").isEmpty) then s
  else outcome f s

/-- The journeys after findings. -/
def travel (f : Findings) (j : JourneyStack) : JourneyStack :=
  let j := match f.entered with
    | some id => j.push id id
    | none => j
  if f.left then j.pop else j

/-- The step closed by findings that close it. -/
def closeBy (t : Rebuilding) (f : Findings) : Rebuilding :=
  let finish (s : TraceStep) : TraceStep :=
    let s := match f.stepResult with
      | some r => s.withResult r
      | none => s
    match f.error.filter fun e => !e.isEmpty with
    | some message => s.withError message f.errorHresult
    | none => s
  { t with current := t.current.map finish }.close

/-- Findings about a group. -/
def apply (t : Rebuilding) (f : Findings) (log : LogInput) (eventType : String) : Rebuilding :=
  if !f.success then
    match f.error.filter fun e => !e.isEmpty with
    | some error => t.report error
    | none => t
  else
    let t := if f.createStep then t.openStep f log eventType
      else { t.takeUpdates f with current := t.current.map (outcomeOfOpen f) }
    let t := { t with journeys := travel f t.journeys }
    match t.current with
    | none => t
    | some s =>
      let t := { t with current := some (f.applyTo t.statebag.claims s) }
      if f.finalizeStep then t.closeBy f else t

/-- A group interpreted and its findings taken. -/
def takeGroup (t : Rebuilding) (log : LogInput) (eventType : String) (g : HandlerGroup) :
    Rebuilding :=
  let (registry, reading) := t.registry.interpret
    { handler := g.handler
      result := g.result
      timestamp := log.timestamp
      statebag := t.statebag.entries }
  let t := { t with registry }
  match reading with
  | .skipped => t
  | .failed => t.report ("Interpreter error in " ++ g.handler ++ ": ")
  | .done findings moved =>
    let t := match moved with
      | some step => { t with journeys := t.journeys.atStep step }
      | none => t
    t.apply findings log eventType

/-! ### Changes of state -/

/-- The outcome that a change of state means for an interaction. -/
def transitionOutcome? : String → Option (String × Bool)
  | "Fail" => some (Interaction.failed, false)
  | "Continue" => some (Interaction.continued, true)
  | "SendClaims" => some (Interaction.continued, true)
  | "Cancel" => some (Interaction.cancelled, false)
  | "Cancelled" => some (Interaction.cancelled, false)
  | _ => none

/-- A step with a change of state. An interaction that is known stays, unless the change
is an error. -/
def noteTransition (eventName : String) (s : TraceStep) : TraceStep :=
  let s := { s with transitionEvent := some eventName }
  match transitionOutcome? eventName with
  | none => s
  | some (name, success) =>
    if s.interaction.isNone || name = Interaction.failed then
      { s with
        interaction := some
          { outcome := name
            success
            errorMessage := if name = Interaction.failed then s.errorMessage else none
            errorHresult := s.errorHresult } }
    else s

/-- A change of state noted in the open step. -/
def takeTransition (t : Rebuilding) (change : Transition) : Rebuilding :=
  { t with current := t.current.map (noteTransition change.eventName) }

/-! ### Logs -/

/-- An event of a log: a handler that ran, or a change of state. -/
inductive Event where
  | group (g : HandlerGroup)
  | change (c : Transition)

/-- The place of an event among the clips of its log. -/
def Event.index : Event → Nat
  | group g => g.index
  | change c => c.index

/-- The events of a log in order. -/
def eventsOf (clips : List Clip) : List Event :=
  ((handlerGroups clips).map Event.group ++ (transitionsOf clips).map Event.change).mergeSort
    fun a b => a.index ≤ b.index

/-- An event taken. -/
def takeEvent (log : LogInput) (eventType : String) (t : Rebuilding) : Event → Rebuilding
  | .group g => t.takeGroup log eventType g
  | .change c => t.takeTransition c

/-- The step that stands for the exception that ended a log. -/
def fatalStep (t : Rebuilding) (message : String) (log : LogInput) : TraceStep :=
  let s := t.snapshot ((t.newStep log).withError message none)
  { s with nodeId := s.journeyId.shown ++ "-Error" }

/-- The exception that ended a log: the open step fails, and a step of its own follows. -/
def takeFatal (t : Rebuilding) (message : String) (log : LogInput) : Rebuilding :=
  let t := t.report message
  let failed := t.current.map fun s => s.withError message none
  let t := { t with current := failed }.close
  { t with steps := t.steps ++ [t.fatalStep message log], sequence := t.sequence + 1 }

/-- The line about a clip of a known kind with the wrong content. -/
def malformedLine (log : LogInput) (kind problem : String) : String :=
  "Malformed " ++ kind ++ " clip in log " ++ log.id ++ ": " ++ problem

/-- A log taken. -/
def take (t : Rebuilding) (log : LogInput) : Rebuilding :=
  let eventType := LogInput.eventType (headersOf? log.clips)
  let t := (malformedOf log.clips).foldl
    (fun t (kind, _, problem) => t.report (malformedLine log kind problem)) t
  let t := (eventsOf log.clips).foldl (takeEvent log eventType) t
  match fatalOf? log.clips with
  | some (e, _) => t.takeFatal e.message log
  | none => t

end Rebuilding

/-! ### Traces -/

/-- The message about logs of which none is about a supported event. -/
def noSupportedEvents : String :=
  "No Event:AUTH, Event:API, Event:SELFASSERTED, or Event:ClaimsExchange logs found."

/-- The trace of a journey. -/
structure Trace where
  steps : List TraceStep := []
  executions : Executions := []
  mainJourney : String := ""
  success : Bool := true
  errors : List String := []
  statebag : Fields String := []
  claims : Fields String := []
  /-- Whether steps had to be told apart by a window that is no span of time. -/
  overlong : Bool := false
  deriving Repr, Inhabited

/-- The main journey of logs in order: the first policy that headers name, else that of
the first log. -/
def mainJourneyOf (logs : List LogInput) : String :=
  (logs.findSome? fun log =>
      ((headersOf? log.clips).map Headers.policyId).filter fun id => !id.isEmpty).getD
    ((logs.head?.map LogInput.policyId).getD "")

/-- What is done with the steps of a trace when all logs are taken. -/
inductive Pass where
  | durations
  | selections
  deriving DecidableEq, Repr

/-- Steps after a pass. -/
def Pass.run : Pass → List TraceStep → List TraceStep
  | durations => withDurations
  | selections => withSelections

/-- The passes that are done, in order. -/
def Pass.standard : List Pass := [durations, selections]

/-- A rebuilt trace after all passes. -/
def Rebuilding.trace (t : Rebuilding) (mainJourney : String) (passes : List Pass) : Trace :=
  let steps := passes.foldl (fun steps p => p.run steps) t.steps
  { steps
    executions := Executions.ofSteps steps
    mainJourney
    success := t.errors.isEmpty
    errors := t.errors
    statebag := t.statebag.entries
    claims := t.statebag.claims
    overlong := !t.seen.isEmpty && t.window.count > Rebuilding.longestSpan }

/-- A trace in the making before the first log. -/
def Rebuilding.start (registry : Registry) (window : Milliseconds) (mainJourney : String) :
    Rebuilding :=
  { journeys := JourneyStack.ofMain mainJourney (journeyName mainJourney), registry, window }

/-- The logs about supported events, in the order of their times. -/
def supportedLogs (settings : TraceSettings) (logs : List LogInput) : List LogInput :=
  LogInput.sorted (logs.filter fun log => settings.events.contains log.event)

/-- The trace of some logs, with the registry after that. -/
def rebuildWith (registry : Registry) (passes : List Pass) (settings : TraceSettings)
    (logs : List LogInput) : Registry × Trace :=
  let registry := registry.forgotten
  match supportedLogs settings logs with
  | [] => (registry, { success := false, errors := [noSupportedEvents] })
  | logs =>
    let mainJourney := mainJourneyOf logs
    let t := (logs.foldl Rebuilding.take
      (Rebuilding.start registry settings.dedupWindow mainJourney)).close
    (t.registry, t.trace mainJourney passes)

/-- The trace of some logs. -/
def rebuild (settings : TraceSettings) (logs : List LogInput) : Trace :=
  (rebuildWith (Registry.standard settings.orchestrationReset) Pass.standard settings logs).2

/-- A trace for a report, if the calendar has dates for all its times. -/
def Trace.toValue? (t : Trace) : Option Value :=
  if t.overlong then none else (t.steps.mapM TraceStep.toValue?).map fun steps =>
    .object
      [("traceSteps", .list steps),
        ("executionMap", t.executions.toValue),
        ("mainJourneyId", .text t.mainJourney),
        ("success", .bool t.success),
        ("errors", .list (t.errors.map .text)),
        ("finalStatebag", textFields t.statebag),
        ("finalClaims", textFields t.claims)]

end TrustFramework
