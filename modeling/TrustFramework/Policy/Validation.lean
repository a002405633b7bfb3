import TrustFramework.Policy.Node

/-!
# Validating a policy

A policy needs a root element with an identifier, a base that names a policy if it
names anything, and an identifier on every element that others refer to. All
problems are collected; a missing tenant is only a warning.

* `Problem` — a problem of a file, with its severity and place.
* `validate` — the problems of a tree.
* `isValid`, `isFatal` — what a list of problems amounts to.
-/

namespace TrustFramework
namespace Policy

/-- How grave a problem is. -/
inductive Severity where
  | error
  | warning
  deriving DecidableEq, Repr

/-- The name of a severity. -/
def Severity.shown : Severity → String
  | error => "error"
  | warning => "warning"

/-- A problem of a policy file. -/
structure Problem where
  message : String
  severity : Severity
  fileName : String
  path : String
  deriving DecidableEq, Repr

/-- The root element of every policy. -/
def rootName : String := "TrustFrameworkPolicy"

/-- The path of the root. -/
def rootPath : String := "/" ++ rootName

/-- The elements that need an identifier, by their path below the root. -/
def identified : List (List String) :=
  [["BuildingBlocks", "ClaimsSchema", "ClaimType"],
    ["BuildingBlocks", "ClaimsTransformations", "ClaimsTransformation"],
    ["ClaimsProviders", "ClaimsProvider", "TechnicalProfiles", "TechnicalProfile"],
    ["RelyingParty", "TechnicalProfile"],
    ["UserJourneys", "UserJourney"],
    ["SubJourneys", "SubJourney"]]

/-- Whether a field of a node holds something. -/
def states (node : Value) (name : String) : Bool := !(node.get name).isHollow

/-- Elements with their positions, counted from one. -/
def positioned {α : Type} (items : List α) : List (Nat × α) :=
  (List.range' 1 items.length).zip items

/-- The problems of the elements under one path. -/
def missingIds (fileName : String) (root : Value) (path : List String) : List Problem :=
  (positioned (Node.children root path)).filterMap fun (position, element) =>
    if states element "@_Id" then none
    else some
      { message := path.getLastD "" ++ s!" at position {position} is missing Id"
        severity := .error
        fileName := fileName
        path := rootPath ++ "/" ++ "/".intercalate path }

/-- The problems of the root itself. -/
def rootProblems (fileName : String) (root : Value) : List Problem :=
  (if states root "@_PolicyId" then []
    else [⟨"Missing PolicyId attribute", .error, fileName, rootPath⟩]) ++
  (if states root "@_TenantId" then []
    else [⟨"Missing TenantId attribute", .warning, fileName, rootPath⟩]) ++
  (match root.get? "BasePolicy" with
    | none => []
    | some base =>
      if states base "PolicyId" then []
      else [⟨"BasePolicy is missing PolicyId", .error, fileName, rootPath ++ "/BasePolicy"⟩])

/-- The problems of a policy tree. -/
def validate (policy : Value) (fileName : String) : List Problem :=
  match policy.get rootName with
  | .object fields =>
    let root := Value.object fields
    rootProblems fileName root ++ identified.flatMap (missingIds fileName root)
  | _ => [⟨s!"Missing root element <{rootName}>", .error, fileName, "/"⟩]

/-- Whether no problem is an error. -/
def isValid (problems : List Problem) : Bool :=
  !(problems.any fun p => p.severity = .error)

/-- Whether the document has no policy root at all. -/
def isFatal (problems : List Problem) : Bool :=
  problems.any fun p => p.path = "/" && p.severity = .error

end Policy
end TrustFramework
