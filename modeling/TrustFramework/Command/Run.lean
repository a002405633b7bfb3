import TrustFramework.Command.Invocation
import TrustFramework.Command.Path
import TrustFramework.Ingest.LogRecord
import TrustFramework.Json.Writer
import TrustFramework.Processing
import TrustFramework.Trace.Flow

/-!
# Running commands

A run reads the files that its command names, prints lines about what it did, writes
files and ends with a status.

* `World` — what a run can see.
* `Report` — what a run does.
* `Task.run` — the run of a task with settings.
* `run` — the run of a command line.
-/

namespace TrustFramework
namespace Command

/-- What a run can see. -/
structure World where
  /-- What the file at a path holds. -/
  read : String → Except ReadFault String
  /-- The path of the settings where no other is given, or nothing. -/
  config : String := ""
  /-- The present time. -/
  now : String

/-- How a run ends. -/
inductive Status where
  | success
  /-- The command line cannot be understood. -/
  | usage
  /-- The input cannot be read. -/
  | input
  /-- The policies do not fit together. -/
  | processing
  /-- The policies rest on themselves. -/
  | cycle
  /-- There are no settings. -/
  | config
  /-- The trace has errors. -/
  | traceErrors
  deriving DecidableEq, Repr

/-- The number of a status. -/
def Status.code : Status → Nat
  | success => 0
  | usage => 2
  | input => 3
  | processing => 4
  | cycle => 5
  | config => 6
  | traceErrors => 7

/-- What a run does. -/
structure Report where
  status : Status
  /-- The lines that are printed. -/
  lines : List String := []
  /-- The files that are written, by the places their paths lead to. -/
  outputs : Fields String := []
  deriving DecidableEq, Repr

/-- Why a run breaks off without a status. -/
inductive Failure where
  | settings (fault : Settings.Fault)
  | policy (fault : Policy.Fault)
  /-- A time that no date of the calendar stands for. -/
  | calendar
  deriving DecidableEq, Repr

/-- One more file written. -/
def Report.write (r : Report) (path text : String) : Report :=
  { r with outputs := Fields.set r.outputs (Path.settled path) text }

/-- One more line printed. -/
def Report.print (r : Report) (line : String) : Report := { r with lines := r.lines ++ [line] }

/-- A file written unless no path is given, and a line that names it. -/
def Report.writeNamed (r : Report) (label path text : String) : Report :=
  if path.isEmpty then r else (r.write path text).print (label ++ "=" ++ path)

/-! ### Input -/

/-- The settings at a path, at the path that the world has for them, or the standard
ones. -/
def World.settings (w : World) (config : String) : Except Settings.Fault Settings :=
  let path := if config.isEmpty then w.config else config
  let shown := Path.shown path
  if path.isEmpty then .ok {}
  else match w.read path with
    | .ok text => Settings.ofText shown text
    | .error fault => .error (.unreadable shown (fault.message shown))

/-- The records of a log file. -/
def World.records (w : World) (path : String) : Except Ingest.Fault (List LogRecord) :=
  let shown := Path.shown path
  match w.read path with
  | .ok text => Ingest.ofText shown text
  | .error fault => .error (.unreadable shown (fault.message shown))

/-- A policy file, or the words about why it cannot be read. -/
def World.policyFile (w : World) (path : String) : Except String PolicyFile :=
  match w.read path with
  | .ok text => .ok ⟨Path.name path, Text.withLineFeeds text, w.now⟩
  | .error fault => .error (fault.message (Path.shown path))

/-! ### Tasks -/

/-- The report about policies that cannot be worked with. -/
def faultReport (fault : Policy.Fault) : Except Failure Report :=
  if fault.isWordless then .error (.policy fault)
  else
    match fault with
    | .cycle _ => .ok { status := .cycle, lines := [fault.message] }
    | _ => .ok { status := .processing, lines := [fault.message] }

/-- The full report on a set of policies. -/
def fullReport (w : World) (outcome : Processing.Outcome) : String :=
  Json.page (.object (outcome.fields ++ [("processedAt", .text w.now)]))

/-- The files and lines that come of a set of policies. -/
def outcomeReport (w : World) (outcome : Processing.Outcome) (out graphOut reportOut : String) :
    Report :=
  let written := (({ status := .success } : Report).write out outcome.xml).print
    ("consolidated=" ++ Path.shown out)
  let drawn := written.writeNamed "graph" graphOut (Json.page (.object outcome.graphFields))
  let reported := drawn.writeNamed "report" reportOut (fullReport w outcome)
  outcome.warnings.foldl (fun r warning => r.print ("warning=" ++ warning)) reported

/-- The consolidation of files. -/
def runConsolidate (w : World) (settings : Settings) (files : List String)
    (out graphOut reportOut : String) : Except Failure Report :=
  match files.mapM w.policyFile with
  | .error words => .ok { status := .input, lines := ["error=" ++ words] }
  | .ok files =>
    match Processing.run settings.consolidation files with
    | .error fault => faultReport fault
    | .ok outcome => .ok (outcomeReport w outcome out graphOut reportOut)

/-- The trace of logs. -/
def runTrace (w : World) (settings : Settings) (logs correlationId out : String) :
    Except Failure Report :=
  match w.records logs with
  | .error fault => .ok { status := .input, lines := [fault.message] }
  | .ok records =>
    let chosen := records.filter fun r =>
      correlationId.isEmpty || r.correlationId = correlationId
    let trace := rebuild settings.trace (chosen.map LogRecord.toLog)
    match trace.toValue? with
    | none => .error .calendar
    | some v =>
      .ok
        { status := if trace.success then .success else .traceErrors
          lines := ["trace=" ++ out, "steps=" ++ toString trace.steps.length] ++
            trace.errors.map ("error=" ++ ·)
          outputs := [(Path.settled out, Json.page v)] }

/-- The flows of logs. -/
def runFlows (w : World) (settings : Settings) (logs out : String) : Except Failure Report :=
  match w.records logs with
  | .error fault => .ok { status := .input, lines := [fault.message] }
  | .ok records =>
    let flows := flowsOf settings.trace (records.map LogRecord.toLog)
    match flows.mapM Flow.toValue? with
    | none => .error .calendar
    | some values =>
      .ok
        { status := .success
          lines := ["flows=" ++ out, "count=" ++ toString flows.length]
          outputs := [(Path.settled out, Json.page (.list values))] }

/-- The run of a task with settings. -/
def Task.run (w : World) (settings : Settings) : Task → Except Failure Report
  | .consolidate files out graphOut reportOut =>
    runConsolidate w settings files out graphOut reportOut
  | .trace logs correlationId out => runTrace w settings logs correlationId out
  | .flows logs out => runFlows w settings logs out

/-- The files that a task reads. -/
def Task.inputs : Task → List String
  | .consolidate files _ _ _ => files
  | .trace logs _ _ => [logs]
  | .flows logs _ => [logs]

/-! ### Command lines -/

/-- The run of an invocation. Without settings nothing is done. -/
def Invocation.run (w : World) (i : Invocation) : Except Failure Report :=
  match w.settings i.config with
  | .ok settings => i.task.run w settings
  | .error (.senseless path defect) => .error (.settings (.senseless path defect))
  | .error fault => .ok { status := .config, lines := [fault.message] }

/-- The run of a command line. -/
def run (w : World) (arguments : List String) : Except Failure Report :=
  match Invocation.read arguments with
  | .ok i => i.run w
  | .error .usage => .ok { status := .usage }
  | .error .help => .ok { status := .success }

end Command
end TrustFramework
