import TrustFramework.Entity.Definition

/-!
# Versions of definitions

A thing that several files define has one version for each definition, in the
order the files were read; the consolidated version, if there is one, is what all
of them amount to. Every version remembers the file, the policy and the depth of
its file in the inheritance, zero for the most basic.

* `Version`, `Version.layer` — a version, and one laid onto another.
* `highest`, `byDepth` — versions by depth.
* `Collection` — the versions of the things of one kind, by identifier.
* `Collection.effective?` — the version that counts.
-/

namespace TrustFramework

/-- Where a definition stands. -/
structure Source where
  fileName : String
  policyId : String
  depth : Int
  deriving DecidableEq, Repr

/-- The identifier of the policy that all policies amount to. -/
def consolidatedPolicyId : String := "Consolidated"

/-- A definition with its identifier and its source. -/
structure Version (α : Type) where
  id : String
  source : Source
  /-- The path to the definition in its document. -/
  path : String
  /-- Whether an earlier file defines the same thing. -/
  isOverride : Bool
  /-- The definition as it is written. -/
  xml : String
  body : α
  deriving Repr

namespace Version

variable {α β : Type}

/-- Whether a version is what the versions of all files amount to. -/
def isConsolidated (v : Version α) : Bool := v.source.policyId = consolidatedPolicyId

/-- The depth of a version's file. -/
def depth (v : Version α) : Int := v.source.depth

/-- The same version of another thing. -/
def map (f : α → β) (v : Version α) : Version β := { v with body := f v.body }

/-- A derived version, given last, laid onto its base: what identifies it stays. -/
def layer [Definition α] (base derived : Version α) : Version α :=
  { derived with body := Definition.layer base.body derived.body }

/-- What a version is apart from its definition, for a report. -/
def originFields (element : String) (v : Version α) : Fields Value :=
  [("id", .text v.id),
    ("entityType", .text element),
    ("sourceFile", .text v.source.fileName),
    ("sourcePolicyId", .text v.source.policyId),
    ("xpath", .text v.path),
    ("hierarchyDepth", .int v.source.depth),
    ("isOverride", .bool v.isOverride),
    ("rawXml", .text v.xml)]

/-- A version for a report. -/
def toValue [Definition α] (v : Version α) : Value :=
  .object (v.originFields (Definition.element α) ++ Definition.fields v.body)

end Version

/-- The first of the versions of greatest depth. -/
def highest? {α : Type} : List (Version α) → Option (Version α)
  | [] => none
  | v :: rest =>
    match highest? rest with
    | none => some v
    | some w => some (if v.depth < w.depth then w else v)

/-- Versions from the most basic to the most derived; those of one depth stay as
they stand. -/
def byDepth {α : Type} (versions : List (Version α)) : List (Version α) :=
  versions.mergeSort fun v w => v.depth ≤ w.depth

/-- The versions of the things of one kind, by identifier. -/
abbrev Collection (α : Type) := Fields (List (Version α))

namespace Collection

variable {α : Type}

/-- The versions of a thing. -/
def versions (c : Collection α) (id : String) : List (Version α) := (c.get? id).getD []

/-- The versions of a thing that stand in files. -/
def originals (c : Collection α) (id : String) : List (Version α) :=
  (c.versions id).filter fun v => !v.isConsolidated

/-- The version of a thing that counts: the consolidated one, else the highest. -/
def effective? (c : Collection α) (id : String) : Option (Version α) :=
  ((c.versions id).find? Version.isConsolidated) <|> highest? (c.versions id)

/-- Whether a thing has a version. -/
def isDefined (c : Collection α) (id : String) : Bool := !(c.versions id).isEmpty

/-- One more version, behind those of the same thing. -/
def add (c : Collection α) (v : Version α) : Collection α :=
  c.set v.id (c.versions v.id ++ [v])

/-- How many versions there are. -/
def count (c : Collection α) : Nat :=
  c.foldl (fun n entry => n + entry.2.length) 0

/-- A collection for a report. -/
def toValue [Definition α] (c : Collection α) : Value :=
  .object (c.mapValues fun versions => .list (versions.map Version.toValue))

end Collection
end TrustFramework
