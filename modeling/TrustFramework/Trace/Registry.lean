import TrustFramework.Trace.Interpreter

/-!
# The registry of interpreters

Interpreters are tried in the order in which they were registered; the first that claims
a handler is the one for it. The registry notes which one that was, so that it need not
be looked for again.

* `Registry` — the registered interpreters with the notes.
* `Registry.search?` — the interpreter for a handler, looked for.
* `Registry.find?` — the same by the notes, with the notes after that.
* `Registry.interpret` — the findings about a group.
-/

namespace TrustFramework

/-- A registered interpreter with what it remembers. -/
structure Registered where
  interpreter : Interpreter
  memory : Orchestration
  deriving DecidableEq, Repr, Inhabited

namespace Registered

/-- An interpreter that remembers nothing yet. -/
def fresh (reset : Milliseconds) (i : Interpreter) : Registered := ⟨i, { reset }⟩

/-- An interpreter that has forgotten everything. -/
def forgotten (r : Registered) : Registered := { r with memory := { reset := r.memory.reset } }

end Registered

/-- The registered interpreters. -/
structure Registry where
  entries : List Registered := []
  /-- The interpreter for handlers that none claims. -/
  fallback : Option Registered := none
  /-- The places of the interpreters for handlers that were looked for. -/
  notes : Fields Nat := []
  deriving Repr, Inhabited

namespace Registry

/-- One more interpreter. The notes are given up. -/
def register (r : Registry) (e : Registered) : Registry :=
  { r with entries := r.entries ++ [e], notes := [] }

/-- More interpreters. -/
def registerAll (r : Registry) (es : List Registered) : Registry := es.foldl register r

/-- The place of the first interpreter that claims a handler. -/
def place? (r : Registry) (handler : String) : Option Nat :=
  r.entries.findIdx? fun e => e.interpreter.claims handler

/-- The first interpreter that claims a handler, looked for. -/
def search? (r : Registry) (handler : String) : Option Registered :=
  r.entries.find? fun e => e.interpreter.claims handler

/-- The registry with a note of the interpreter for a handler, if there is one, and the
place of that interpreter. -/
def locate (r : Registry) (handler : String) : Registry × Option Nat :=
  match r.notes.get? handler with
  | some i => (r, some i)
  | none =>
    match r.place? handler with
    | some i => ({ r with notes := r.notes.set handler i }, some i)
    | none => (r, none)

/-- The interpreter for a handler by the notes, and the notes after that. -/
def find? (r : Registry) (handler : String) : Registry × Option Registered :=
  let (r, i) := r.locate handler
  (r, i.bind fun i => r.entries[i]?)

/-- The interpreter for a handler, or the one for those that none claims. -/
def get? (r : Registry) (handler : String) : Registry × Option Registered :=
  let (r, e) := r.find? handler
  (r, e <|> r.fallback)

/-- The registry without the first interpreter that has a handler among its names, and
whether there was one. -/
def unregister (r : Registry) (handler : String) : Registry × Bool :=
  match r.entries.findIdx? fun e => e.interpreter.handlers.contains handler with
  | some i => ({ r with entries := r.entries.eraseIdx i, notes := [] }, true)
  | none => (r, false)

/-- The handlers that the interpreters claim by name, without repetition. -/
def handlerNames (r : Registry) : List String :=
  distinct (r.entries.flatMap fun e => e.interpreter.handlers)

/-- The registry with all interpreters forgetful of what they saw. -/
def forgotten (r : Registry) : Registry :=
  { r with entries := r.entries.map Registered.forgotten }

/-- The registry of the standard interpreters. -/
def standard (reset : Milliseconds) : Registry :=
  { entries := Interpreter.standard.map (Registered.fresh reset)
    fallback := some (Registered.fresh reset .statebagOnly) }

/-- The registry with what an interpreter at a place remembers; the one for unclaimed
handlers has no place. -/
def remember (r : Registry) (i : Option Nat) (m : Orchestration) : Registry :=
  match i with
  | some i => { r with entries := r.entries.modify i fun e => { e with memory := m } }
  | none => { r with fallback := r.fallback.map fun e => { e with memory := m } }

/-- What became of a group. -/
inductive Reading where
  /-- No interpreter takes it. -/
  | skipped
  /-- The interpreter does not understand it. -/
  | failed
  /-- The findings, and the step the journey moved to. -/
  | done (findings : Findings) (moved : Option Int)

/-- A group interpreted, with the registry after that. -/
def interpret (r : Registry) (c : Context) : Registry × Reading :=
  let (r, i) := r.locate c.handler
  match (i.bind fun i => r.entries[i]?) <|> r.fallback with
  | none => (r, .skipped)
  | some e =>
    match e.interpreter.interpret e.memory c with
    | none => (r, .failed)
    | some outcome => (r.remember i outcome.memory, .done outcome.findings outcome.moved)

end Registry
end TrustFramework
