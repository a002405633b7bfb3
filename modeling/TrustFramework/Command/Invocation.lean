import TrustFramework.Command.Word

/-!
# Invocations

A command line names one of three commands, behind options that all of them share.

* `Task` — what is asked for.
* `Invocation` — a task with the shared options.
* `Invocation.read` — the invocation that a command line spells.
-/

namespace TrustFramework
namespace Command

/-- What is asked for. A path that is empty is not given. -/
inductive Task where
  /-- One policy made of several files. -/
  | consolidate (files : List String) (out graphOut reportOut : String)
  /-- The trace of the logs with a correlation, or of all if it is empty. -/
  | trace (logs correlationId out : String)
  /-- The flows of logs. -/
  | flows (logs out : String)
  deriving DecidableEq, Repr

/-- A task with the options that all commands share. -/
structure Invocation where
  /-- The path of the settings, or nothing. -/
  config : String := ""
  /-- The least weight of what is logged, or nothing. -/
  logLevel : String := ""
  task : Task
  deriving DecidableEq, Repr

/-- The options in front of a command. -/
def sharedGrammar : Grammar :=
  { options :=
      [{ name := "--config" },
        { name := "--log-level", choices := ["DEBUG", "INFO", "WARNING", "ERROR", "CRITICAL"] }] }

/-- The options of the commands. -/
def grammars : List (String × Grammar) :=
  [("consolidate",
      { options := [{ name := "--out" }, { name := "--graph-out" }, { name := "--report-out" }]
        several := true }),
    ("trace", { options := [{ name := "--correlation-id" }, { name := "--out" }] }),
    ("flows", { options := [{ name := "--out" }] })]

/-- The shared options at the front of a command line, and the words from the command on,
as they are written. -/
def readShared (t : Taken) : List String → List Word → Except Stop (Taken × List String)
  | s :: texts, w :: rest =>
    let begins := match w with
      | .argument _ => true
      | .separator => true
      | _ => false
    if begins && t.awaited.isNone then .ok (t, s :: texts)
    else do readShared (← t.step sharedGrammar w) texts rest
  | _, _ => .error .usage

/-- The task of a command with all that was taken from its words. -/
def taskOf (command : String) (t : Taken) : Except Stop Task :=
  match t.value? "--out", t.arguments with
  | none, _ => .error .usage
  | _, [] => .error .usage
  | some out, first :: rest =>
    match command with
    | "consolidate" => .ok (.consolidate (first :: rest) out (t.valueOrEmpty "--graph-out")
        (t.valueOrEmpty "--report-out"))
    | "trace" => .ok (.trace first (t.valueOrEmpty "--correlation-id") out)
    | "flows" => .ok (.flows first out)
    | _ => .error .usage

/-- The invocation that a command line spells. A word that could not be used spoils it,
but only behind everything else. -/
def Invocation.read (texts : List String) : Except Stop Invocation := do
  let (shared, rest) ← readShared {} texts (← sharedGrammar.words texts)
  match rest with
  | [] => throw .usage
  | command :: texts =>
    let some g := grammars.lookup command | throw .usage
    let t ← (← g.words texts).foldlM (Taken.step g) {}
    if t.awaited.isSome then throw .usage
    let task ← taskOf command t
    if shared.excess || t.excess then throw .usage
    pure
      { config := shared.valueOrEmpty "--config"
        logLevel := shared.valueOrEmpty "--log-level"
        task }

end Command
end TrustFramework
