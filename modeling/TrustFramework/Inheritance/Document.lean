import TrustFramework.Fields
import TrustFramework.Policy.Fault
import TrustFramework.Value

/-!
# Policy documents and their order

A policy may rest on a base policy. Documents are put in order so that every one
follows its base; those that do not depend on each other keep the order given.

* `Document` — a policy file that was read.
* `orderByInheritance` — the documents in order, or why there is none.
* `Hierarchy`, `Hierarchy.ofDocuments` — who rests on whom, and how deep.
-/

namespace TrustFramework

/-- A policy file that was read. -/
structure Document where
  fileName : String
  policyId : String
  base : Option String
  content : String := ""
  tree : Value := .null
  uploadedAt : String := ""

namespace Document

/-- The identifier of the base policy, if the document names one. -/
def baseId? (d : Document) : Option String := d.base.filter fun id => !id.isEmpty

/-- The document of a policy. -/
def ofPolicy? (documents : List Document) (policyId : String) : Option Document :=
  documents.find? fun d => d.policyId = policyId

end Document

/-! ### Order -/

/-- The fault of the first document whose policy an earlier one defines. -/
def duplicateFault? (seen : List Document) : List Document → Option Policy.Fault
  | [] => none
  | d :: rest =>
    match Document.ofPolicy? seen d.policyId with
    | some first => some (.duplicatePolicy d.policyId first.fileName d.fileName)
    | none => duplicateFault? (seen ++ [d]) rest

/-- The fault of the first document whose base is not there. -/
def missingBaseFault? (documents : List Document) : Option Policy.Fault :=
  documents.findSome? fun d => d.baseId?.bind fun base =>
    if (Document.ofPolicy? documents base).isSome then none
    else some (.missingBase d.policyId base d.fileName)

/-- A document with the bases it needs before it, most basic first, but for those
that are placed already. `trail` holds the policies that led to the document, and
`bound` is more than the policies the trail can still take up. -/
def withBases (documents placed : List Document) :
    (bound : Nat) → (trail : List String) → Document → Except Policy.Fault (List Document)
  | 0, _, _ => .ok []
  | bound + 1, trail, d =>
    if (Document.ofPolicy? placed d.policyId).isSome then .ok []
    else if trail.contains d.policyId then
      .error (.cycle (trail.dropWhile (· ≠ d.policyId) ++ [d.policyId]))
    else
      match d.baseId?.bind (Document.ofPolicy? documents) with
      | none => .ok [d]
      | some base => do
        let before ← withBases documents placed bound (trail ++ [d.policyId]) base
        pure (before ++ [d])

/-- The documents so that every policy follows its base. -/
def orderByInheritance (documents : List Document) : Except Policy.Fault (List Document) :=
  match duplicateFault? [] documents with
  | some fault => .error fault
  | none =>
    match missingBaseFault? documents with
    | some fault => .error fault
    | none =>
      documents.foldlM (fun placed d => do
        let more ← withBases documents placed (documents.length + 1) [] d
        pure (placed ++ more)) []

/-! ### Hierarchy -/

/-- Which policy rests on which. -/
structure Hierarchy where
  /-- The first policy without a base. -/
  root : Option String := none
  /-- The base of each policy that has one. -/
  parents : Fields String := []
  /-- The policies that rest on a policy. -/
  children : Fields (List String) := []
  /-- How many bases a policy has under it. -/
  depths : Fields Nat := []
  deriving DecidableEq, Repr

namespace Hierarchy

/-- A document put into a hierarchy that its base is in. -/
def add (h : Hierarchy) (d : Document) : Hierarchy :=
  match d.baseId? with
  | some base =>
    { h with
      parents := h.parents.set d.policyId base
      children := h.children.alter base fun known => known.getD [] ++ [d.policyId]
      depths := h.depths.set d.policyId ((h.depths.get? base).getD 0 + 1) }
  | none =>
    { h with
      root := h.root <|> some d.policyId
      depths := h.depths.set d.policyId 0 }

/-- The hierarchy of documents in the order of inheritance. -/
def ofDocuments (documents : List Document) : Hierarchy := documents.foldl add {}

/-- A hierarchy for a report. -/
def toValue (h : Hierarchy) : Value :=
  .object
    [("rootPolicyId", .ofText? h.root),
      ("parentRelationships", .object (h.parents.mapValues .text)),
      ("childRelationships",
        .object (h.children.mapValues fun ids => .list (ids.map .text))),
      ("hierarchyDepth", .object (h.depths.mapValues fun (n : Nat) => .int n))]

end Hierarchy
end TrustFramework
