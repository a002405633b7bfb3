import TrustFramework.Digest.Sha256
import TrustFramework.Graph.Journey
import TrustFramework.Inheritance.Consolidated
import TrustFramework.Inheritance.Document
import TrustFramework.Policy.Consolidation
import TrustFramework.Settings.Basic

/-!
# Processing policy files

A set of files becomes one policy, the store of what it defines, and the graphs of
its journeys. A file that is no sound policy is left out with a warning, as long as
one file is left.

* `PolicyFile` — a file as it is handed in.
* `load` — a file as a document, or what is wrong with it.
* `Processing.run` — the outcome of a set of files.
-/

namespace TrustFramework

/-- A file as it is handed in. -/
structure PolicyFile where
  name : String
  content : String
  uploadedAt : String

namespace Processing

/-- What came of reading a file: a document if it is sound, the warnings, and those of
them that kept it from being sound. -/
structure Loaded where
  document : Option Document
  warnings : List String
  failures : List String

/-- A text with the name of the file it is about. -/
def about (fileName text : String) : String := fileName ++ ": " ++ text

/-- The base policy that the root of a policy names. -/
def baseOf (root : Value) : Option String :=
  match root.get "BasePolicy" with
  | .object fields =>
    (Fields.get? fields "PolicyId").bind fun v => v.solid?.map Value.shown
  | _ => none

/-- A sound policy tree as a document. -/
def documentOf (file : PolicyFile) (tree : Value) : Document :=
  let root := tree.get Policy.rootName
  { fileName := file.name
    policyId := (root.get "@_PolicyId").shown
    base := baseOf root
    content := file.content
    tree
    uploadedAt := file.uploadedAt }

/-- A file read and validated. -/
def load (file : PolicyFile) : Except Policy.Fault Loaded :=
  match Policy.Tree.parse file.content with
  | .error .outsideContent => .error .outsideContent
  | .error fault =>
    let message := about file.name fault.message
    .ok ⟨none, [message], [message]⟩
  | .ok tree =>
    let problems := Policy.validate tree file.name
    let messages := problems.map fun p => (p.severity, about file.name p.message)
    let warnings := messages.map Prod.snd
    if Policy.isValid problems then .ok ⟨some (documentOf file tree), warnings, []⟩
    else .ok ⟨none, warnings, (messages.filter fun m => m.1 = .error).map Prod.snd⟩

/-- The outcome of processing. -/
structure Outcome where
  xml : String
  store : Store
  graph : Graph
  subgraphs : Fields Graph
  /-- The documents in the order of inheritance. -/
  documents : List Document
  hierarchy : Hierarchy
  warnings : List String

/-- The graphs of a merged policy; one without journeys has none, with a warning. -/
def drawn (tree : Value) (store : Store) (settings : ConsolidationSettings) :
    Except Policy.Fault (Graph × Fields Graph × List String) :=
  match (Atlas.ofTree tree store.technicalProfiles).drawAll settings.graphJourney with
  | .ok graphs => .ok (graphs.mainGraph, graphs.subgraphs, graphs.warnings)
  | .error fault => if fault.isWordless then .error fault else .ok ({}, [], [fault.message])

/-- The definitions of documents in the order of inheritance. -/
def extracted (documents : List Document) : Store :=
  documents.zipIdx.foldl (fun store (d, depth) =>
    store.extract ⟨d.fileName, d.policyId, depth⟩ d.tree) {}

/-- The outcome of documents in the order of inheritance. -/
def ofDocuments (settings : ConsolidationSettings) (warnings : List String)
    (documents : List Document) : Except Policy.Fault Outcome := do
  let store ← (extracted documents).resolve settings.fileName documents.length
  let tree ← Policy.consolidate (documents.map Document.tree)
  let xml ← Policy.Tree.serialize tree
  let (graph, subgraphs, more) ← drawn tree store settings
  pure
    { xml
      store
      graph
      subgraphs
      documents
      hierarchy := Hierarchy.ofDocuments documents
      warnings := warnings ++ more }

/-- The outcome of a set of files. -/
def run (settings : ConsolidationSettings) (files : List PolicyFile) :
    Except Policy.Fault Outcome := do
  if files.isEmpty then throw .noFiles
  let loaded ← files.mapM load
  let documents := loaded.filterMap Loaded.document
  if documents.isEmpty then throw (.noSoundFile (loaded.flatMap Loaded.failures))
  let ordered ← orderByInheritance documents
  ofDocuments settings (loaded.flatMap Loaded.warnings) ordered

/-! ### Reports -/

/-- What a report says about a document at a depth. -/
def fileInfo (d : Document) (depth : Nat) : Value :=
  .object
    [("fileName", .text d.fileName),
      ("policyId", .text d.policyId),
      ("basePolicy", .ofText? d.base),
      ("hierarchyDepth", .int depth),
      ("fileSize", .int d.content.utf8ByteSize),
      ("checksum", .text (Sha256.checksum d.content)),
      ("uploadedAt", .text d.uploadedAt)]

/-- The graphs of an outcome for a report. -/
def Outcome.graphFields (o : Outcome) : Fields Value :=
  [("graph", o.graph.toValue), ("subgraphs", .object (o.subgraphs.mapValues Graph.toValue))]

/-- An outcome for a report. -/
def Outcome.fields (o : Outcome) : Fields Value :=
  [("consolidatedXml", .text o.xml), ("entities", o.store.toValue)] ++ o.graphFields ++
    [("files", .list (o.documents.zipIdx.map fun (d, depth) => fileInfo d depth)),
      ("inheritanceGraph", o.hierarchy.toValue),
      ("warnings", .list (o.warnings.map .text))]

end Processing
end TrustFramework
