import TrustFramework.Text.LineEnds

/-!
# What can go wrong with policies

Only what nothing can be done about is a fault: a text that is no document, a set
of policies without a sound inheritance, a policy without journeys. Everything
else is reported as a problem beside the result.

* `Fault` — the causes.
* `Fault.message`, `Fault.isWordless` — the wording of each, and which have none.
-/

namespace TrustFramework
namespace Policy

/-- Why a policy, or a set of them, cannot be worked with. -/
inductive Fault where
  /-- A document without any character that is not blank. -/
  | emptyDocument
  /-- A text that is not well formed. -/
  | malformed
  /-- A text that refers to content outside of it. -/
  | outsideContent
  /-- A tree with another number of roots than one. -/
  | rootCount (found : Nat)
  /-- A tree without the root element of policies. -/
  | noPolicy
  /-- A set without policies to merge. -/
  | nothingToMerge
  /-- A set without files. -/
  | noFiles
  /-- A set of which no file is a sound policy, with what each is missing. -/
  | noSoundFile (problems : List String)
  /-- Two files that define one policy. -/
  | duplicatePolicy (policyId first second : String)
  /-- A policy whose base is not in the set. -/
  | missingBase (policyId baseId fileName : String)
  /-- Policies, or profiles, that rest on themselves. -/
  | cycle (ids : List String)
  /-- A profile that includes one nobody defined before it. -/
  | unresolvedInclude (profileId includeId fileName : String)
  /-- Profiles of which one, as a whole, includes itself through others. -/
  | endlessIncludes
  /-- A journey that calls a sub-journey which calls itself, maybe through others. -/
  | endlessJourney
  /-- A policy without a journey. -/
  | noJourneys
  deriving DecidableEq, Repr, Inhabited

/-- The wording of a fault. -/
def Fault.message : Fault → String
  | emptyDocument => "XML content is empty"
  | malformed => "Invalid XML: " ++ Text.untold
  | outsideContent => ""
  | rootCount found => s!"Expected exactly one root element, found {found}"
  | noPolicy => ""
  | nothingToMerge => "No policies to consolidate"
  | noFiles => "No policy files provided"
  | noSoundFile problems => "All policy files failed validation: " ++ "; ".intercalate problems
  | duplicatePolicy policyId first second =>
    s!"Duplicate PolicyId '{policyId}' in {first} and {second}"
  | missingBase policyId baseId fileName =>
    s!"{fileName}: base policy '{baseId}' of '{policyId}' is not among the provided files"
  | cycle ids => "Inheritance cycle detected: " ++ " -> ".intercalate ids
  | unresolvedInclude profileId includeId fileName =>
    s!"{fileName}: TechnicalProfile '{profileId}' includes '{includeId}' " ++
      "which is not defined in this file or any of its base policies"
  | endlessIncludes => ""
  | endlessJourney => ""
  | noJourneys => "No UserJourneys found in the policy"

/-- Whether a fault has no words: nobody is told about it but by its kind. -/
def Fault.isWordless : Fault → Bool
  | outsideContent => true
  | noPolicy => true
  | endlessIncludes => true
  | endlessJourney => true
  | _ => false

end Policy
end TrustFramework
