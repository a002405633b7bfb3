import TrustFramework.Entity.Store
import TrustFramework.Policy.Fault

/-!
# Profiles that include profiles

A technical profile may include another one. What an identifier means at a depth
is the highest of its versions up to there, and the include of a profile holds
until a higher version names another.

* `visible?`, `includeAt?` — a profile, and the profile it includes, at a depth.
* `checkIncludes` — the fault of a store whose includes lead nowhere or in a circle.
* `ancestorsOf` — what a version of a profile rests on.
* `withAncestors` — the profiles with what they rest on.
-/

namespace TrustFramework

/-- The technical profiles of a store. -/
abbrev Profiles := Collection TechnicalProfile

namespace Profiles

/-- The versions of a profile up to a depth. -/
def upTo (profiles : Profiles) (id : String) (depth : Int) :
    List (Version TechnicalProfile) :=
  (profiles.originals id).filter fun v => v.depth ≤ depth

/-- What an identifier means at a depth. -/
def visible? (profiles : Profiles) (id : String) (depth : Int) :
    Option (Version TechnicalProfile) := highest? (profiles.upTo id depth)

/-- The profile a version includes, if it names one. -/
def includeOf? (v : Version TechnicalProfile) : Option String :=
  v.body.includes.filter fun id => !id.isEmpty

/-- The profile that a profile includes at a depth: what the highest version that
names one names. -/
def includeAt? (profiles : Profiles) (id : String) (depth : Int) : Option String :=
  ((profiles.upTo id depth).mergeSort fun v w => w.depth ≤ v.depth).findSome? includeOf?

/-! ### Checking -/

/-- The fault of a version that includes a profile nobody has defined up to its depth. -/
def unresolvedFault? (profiles : Profiles) (v : Version TechnicalProfile) :
    Option Policy.Fault :=
  if v.isConsolidated then none
  else (includeOf? v).bind fun included =>
    if (profiles.visible? included v.depth).isSome then none
    else some (.unresolvedInclude v.id included v.source.fileName)

/-- The fault of includes that come back to a profile passed before. `trail` holds
the profiles passed, and `bound` is more than those still to come. -/
def circleFault? (profiles : Profiles) :
    (bound : Nat) → (trail : List String) → Version TechnicalProfile → Option Policy.Fault
  | 0, _, _ => none
  | bound + 1, trail, v =>
    match profiles.includeAt? v.id v.depth with
    | none => none
    | some included =>
      if trail.contains included then
        some (.cycle (trail.dropWhile (· ≠ included) ++ [included]))
      else
        match profiles.visible? included v.depth with
        | none => none
        | some next => circleFault? profiles bound (trail ++ [included]) next

/-- The fault of the includes of a profile. -/
def circleFrom? (profiles : Profiles) (id : String) : Option Policy.Fault :=
  (profiles.effective? id).bind (circleFault? profiles (profiles.length + 1) [id])

/-- Whether the includes of all profiles lead somewhere and to an end. -/
def checkIncludes (profiles : Profiles) : Except Policy.Fault Unit :=
  match (profiles.values.flatten.findSome? profiles.unresolvedFault?) <|>
      (profiles.names.findSome? profiles.circleFrom?) with
  | some fault => .error fault
  | none => .ok ()

/-! ### Ancestors -/

/-- A version as what another one rests on. -/
def ancestor (descent : Descent) (v : Version TechnicalProfile) : Ancestor :=
  ⟨v.id, v.source.policyId, v.source.fileName, descent⟩

/-- The profiles that a profile includes at a depth, one through the other, as long
as none is passed twice. `bound` is more than there are profiles. -/
def includedFrom (profiles : Profiles) :
    (bound : Nat) → (passed : List String) → (id : String) → (depth : Int) →
      List (Version TechnicalProfile)
  | 0, _, _, _ => []
  | bound + 1, passed, id, depth =>
    match profiles.includeAt? id depth with
    | none => []
    | some included =>
      if passed.contains included then []
      else
        match profiles.visible? included depth with
        | none => []
        | some v => v :: includedFrom profiles bound (included :: passed) v.id v.depth

/-- What a version of a profile rests on: itself, the versions it overrides from the
most basic, and the profiles it includes. -/
def ancestorsOf (profiles : Profiles) (v : Version TechnicalProfile) : List Ancestor :=
  let overridden :=
    if v.isOverride then
      byDepth ((profiles.originals v.id).filter fun w => w.depth < v.depth)
    else []
  (v :: overridden).map (ancestor .direct) ++
    (includedFrom profiles (profiles.length + 1) [v.id] v.id v.depth).map (ancestor .included)

/-- The profiles with what every version of a file rests on. -/
def withAncestors (profiles : Profiles) : Profiles :=
  profiles.mapValues fun versions => versions.map fun v =>
    if v.isConsolidated then v
    else { v with body := { v.body with ancestors := profiles.ancestorsOf v } }

end Profiles
end TrustFramework
