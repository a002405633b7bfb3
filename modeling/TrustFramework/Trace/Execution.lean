import TrustFramework.Trace.Step

/-!
# Statebags and executions

* `Statebag` — what the engine knows while a trace goes on: entries that last for a
  step, and claims that last for the trace.
* `Executions` — how often each node of the graph was visited, and how that went.
-/

namespace TrustFramework

/-! ### Statebags -/

/-- What the engine knows while a trace goes on. -/
structure Statebag where
  entries : Fields String := []
  claims : Fields String := []
  deriving DecidableEq, Repr, Inhabited

namespace Statebag

/-- The step the statebag is at, zero if that is no number. -/
def orchStep (b : Statebag) : Int :=
  (Text.readInt? ((b.entries.get? "ORCH_CS").getD "0")).getD 0

/-- A statebag with entries set. -/
def update (b : Statebag) (updates : Fields String) : Statebag :=
  { b with entries := b.entries.update updates }

/-- A statebag with claims set. -/
def updateClaims (b : Statebag) (updates : Fields String) : Statebag :=
  { b with claims := b.claims.update updates }

/-- A statebag without entries; the claims stay. -/
def cleared (b : Statebag) : Statebag := { b with entries := [] }

end Statebag

/-! ### Executions -/

/-- The visits to a node. -/
structure Execution where
  status : StepResult
  visits : Nat := 1
  sequences : List Int := []
  deriving DecidableEq, Repr, Inhabited

/-- The visits to nodes, by node. -/
abbrev Executions := Fields Execution

namespace Executions

/-- The visits to a node with one more. -/
def visited (sequence : Int) (result : StepResult) : Option Execution → Execution
  | none => ⟨result, 1, [sequence]⟩
  | some e => ⟨e.status.merge result, e.visits + 1, e.sequences ++ [sequence]⟩

/-- The visits with that of a step; a step without a node counts for nothing. -/
def add (m : Executions) (s : TraceStep) : Executions :=
  if s.nodeId.isEmpty then m else Fields.alter m s.nodeId (visited s.sequence s.result)

/-- The visits of some steps. -/
def ofSteps (steps : List TraceStep) : Executions := steps.foldl add []

end Executions

/-- The visits to a node for a report. -/
def Execution.toValue (e : Execution) : Value :=
  .object [("status", .text e.status.name), ("visitCount", .int e.visits),
    ("sequenceNumbers", .list (e.sequences.map .int))]

/-- Visits for a report. -/
def Executions.toValue (m : Executions) : Value := .object (Fields.mapValues Execution.toValue m)

end TrustFramework
