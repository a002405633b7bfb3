import TrustFramework.Value

/-!
# Settings

* `Settings` — what can be set, with the defaults.
* `Milliseconds` — a count of milliseconds, remembered as it was written.
-/

namespace TrustFramework

/-- A count of milliseconds. One that was written with a decimal point is reported
with one. -/
structure Milliseconds where
  count : Int
  decimal : Bool := false
  deriving DecidableEq, Repr, Inhabited

/-- Milliseconds for a report. -/
def Milliseconds.toValue (m : Milliseconds) : Value :=
  if m.decimal then .real (Binary64.ofIntRatio m.count 1) else .int m.count

/-- Settings for tracing. -/
structure TraceSettings where
  /-- How close a step must be to the same step before it to be taken for a repetition. -/
  dedupWindow : Milliseconds := ⟨1000, false⟩
  /-- How long a pause must be after which a step number starts a new step. -/
  orchestrationReset : Milliseconds := ⟨1000, false⟩
  /-- The events that logs are traced for. -/
  events : List String :=
    ["Event:AUTH", "Event:API", "Event:SELFASSERTED", "Event:ClaimsExchange"]
  deriving DecidableEq, Repr

/-- Settings for consolidating policies. -/
structure ConsolidationSettings where
  /-- The file that consolidated versions are said to stand in. -/
  fileName : String := "ConsolidatedPolicy"
  /-- The journey whose graph is the main one. -/
  graphJourney : Option String := none
  deriving DecidableEq, Repr

/-- All settings. -/
structure Settings where
  trace : TraceSettings := {}
  consolidation : ConsolidationSettings := {}
  logLevel : String := "WARNING"
  deriving DecidableEq, Repr

/-- Settings for a report. -/
def Settings.toValue (s : Settings) : Value :=
  .object
    [("trace", .object
        [("stepDedupWindowMs", s.trace.dedupWindow.toValue),
          ("orchestrationResetMs", s.trace.orchestrationReset.toValue),
          ("supportedEventInstances", .list (s.trace.events.map .text))]),
      ("consolidation", .object
        [("consolidatedFileName", .text s.consolidation.fileName),
          ("graphJourney", .ofText? s.consolidation.graphJourney)]),
      ("logLevel", .text s.logLevel)]

end TrustFramework
