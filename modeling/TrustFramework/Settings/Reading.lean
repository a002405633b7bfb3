import TrustFramework.Schema.Basic
import TrustFramework.Settings.Basic
import TrustFramework.Text.LineEnds
import TrustFramework.Yaml.Document

/-!
# Reading settings

Settings are read from a mapping that keeps to a schema; what it leaves out has its
default.

* `Settings.schema` — what a mapping of settings must be.
* `Settings.Fault` — why there are no settings.
* `Settings.ofNode` — the settings of a mapping.
* `Settings.ofText` — the settings of a file.
-/

namespace TrustFramework
namespace Settings

/-- What a mapping of settings must be. -/
def schema : Schema :=
  .mapping true []
    [("trace", .mapping true []
        [("step_dedup_window_ms", .count),
          ("orchestration_reset_ms", .count),
          ("supported_event_instances", .list true (.text false false "Event:"))]),
      ("consolidation", .mapping true []
        [("consolidated_file_name", .text false true ""),
          ("graph_journey", .text true false "")]),
      ("logging", .mapping true []
        [("level", .oneOf ["DEBUG", "INFO", "WARNING", "ERROR", "CRITICAL"])])]

/-- Why there are no settings. -/
inductive Fault where
  /-- A mapping that does not keep to the schema. -/
  | invalid (problems : List String)
  /-- A file that cannot be read, or is not well formed. -/
  | unreadable (path detail : String)
  /-- A file that spells something which does not exist. -/
  | senseless (path : String) (defect : Yaml.Defect)
  /-- A file that holds something else than a mapping. -/
  | noMapping (path : String)
  deriving DecidableEq, Repr

/-- Lines under a heading, each behind a hyphen. -/
def bulleted (heading : String) (lines : List String) : String :=
  heading ++ "\n- " ++ "\n- ".intercalate lines

/-- The wording of a fault. -/
def Fault.message : Fault → String
  | invalid problems => bulleted "Invalid settings:" problems
  | unreadable path detail => "Cannot read settings file " ++ path ++ ": " ++ detail
  | senseless path _ => "Cannot read settings file " ++ path ++ ": " ++ Text.untold
  | noMapping path => "YAML root must be a mapping/object: " ++ path

/-- The milliseconds a node counts. -/
def milliseconds? : Node → Option Milliseconds
  | .int n => some ⟨n, false⟩
  | .real x => x.toInt?.map fun n => ⟨n, true⟩
  | _ => none

/-- What a mapping holds under a path of texts. -/
def at? (n : Node) : List String → Option Node
  | [] => some n
  | name :: rest => (n.get? name).bind fun m => at? m rest

/-- The settings of a mapping. -/
def ofNode (n : Node) : Except Fault Settings :=
  match schema.problems n with
  | [] =>
    let standard : Settings := {}
    .ok
      { trace :=
          { dedupWindow := ((at? n ["trace", "step_dedup_window_ms"]).bind milliseconds?).getD
              standard.trace.dedupWindow
            orchestrationReset :=
              ((at? n ["trace", "orchestration_reset_ms"]).bind milliseconds?).getD
                standard.trace.orchestrationReset
            events := ((at? n ["trace", "supported_event_instances"]).map fun m =>
              m.items.filterMap Node.text?).getD standard.trace.events }
        consolidation :=
          { fileName := ((at? n ["consolidation", "consolidated_file_name"]).bind
              Node.text?).getD standard.consolidation.fileName
            graphJourney := (at? n ["consolidation", "graph_journey"]).bind Node.text? }
        logLevel := ((at? n ["logging", "level"]).bind Node.text?).getD standard.logLevel }
  | problems => .error (.invalid problems)

/-- The settings of a file, given what it holds. An empty one leaves out everything. -/
def ofText (path text : String) : Except Fault Settings :=
  match Yaml.readDocument (Text.withLineFeeds text) with
  | .error .malformed => .error (.unreadable path Text.untold)
  | .error defect => .error (.senseless path defect)
  | .ok .null => .ok {}
  | .ok (.mapping entries) => ofNode (.mapping entries)
  | .ok _ => .error (.noMapping path)

end Settings
end TrustFramework
