import TrustFramework.Inheritance.Include

/-!
# What all versions amount to

The versions of a thing are laid onto each other from the most basic to the most
derived. A technical profile that includes another is laid, as a whole, onto what
that one amounts to.

* `folded?` — the versions of a thing laid onto each other.
* `Profiles.ends` — whether the includes from a profile on come to an end.
* `Profiles.layers` — a profile and the profiles it includes, each folded.
* `Profiles.amounts?` — what a profile amounts to.
* `Store.withConsolidated` — a store with a consolidated version of every thing.
* `Store.resolve` — includes checked, ancestors recorded, versions consolidated.
-/

namespace TrustFramework

variable {α : Type} [Definition α]

/-- Versions laid onto each other by depth. -/
def folded? (versions : List (Version α)) : Option (Version α) :=
  match byDepth versions with
  | [] => none
  | first :: rest => some (rest.foldl Version.layer first)

/-- A merged version as the consolidated one of a thing with the given versions: its
place and its text are those of the highest. -/
def asConsolidated (source : Source) (versions : List (Version α)) (merged : Version α) :
    Version α :=
  let latest := (highest? (versions.filter fun v => !v.isConsolidated)).getD merged
  { merged with
    source
    path := latest.path
    isOverride := versions.length > 1
    xml := latest.xml }

/-- A collection with a consolidated version behind the others wherever `merge?`
gives one. -/
def Collection.withConsolidated (source : Source) (merge? : String → Option (Version α))
    (c : Collection α) : Collection α :=
  c.map fun entry => (entry.1, match merge? entry.1 with
    | none => entry.2
    | some merged => entry.2 ++ [asConsolidated source entry.2 merged])

/-- A collection with a consolidated version of every thing. -/
def Collection.consolidated (source : Source) (c : Collection α) : Collection α :=
  c.withConsolidated source fun id => folded? (c.originals id)

namespace Profiles

/-- The versions of a profile laid onto each other. -/
def own? (profiles : Profiles) (id : String) : Option (Version TechnicalProfile) :=
  folded? (profiles.originals id)

/-- The profile that a profile as a whole includes, unless it is itself. -/
def includedBy? (v : Version TechnicalProfile) (id : String) : Option String :=
  (includeOf? v).filter (· ≠ id)

/-- Whether the includes from a profile on come to an end within a number of profiles. -/
def endsWithin (profiles : Profiles) : (bound : Nat) → (id : String) → Bool
  | 0, _ => false
  | bound + 1, id =>
    match (profiles.own? id).bind fun own => includedBy? own id with
    | none => true
    | some included => endsWithin profiles bound included

/-- Whether the includes from a profile on come to an end: within as many profiles as
there are, and one that is not there. -/
def ends (profiles : Profiles) (id : String) : Bool :=
  profiles.endsWithin (profiles.length + 1) id

/-- A profile, the profile it includes, and so on, each as its versions amount to.
`bound` is more than the number of profiles on the way. -/
def layers (profiles : Profiles) : (bound : Nat) → (id : String) →
    List (Version TechnicalProfile)
  | 0, _ => []
  | bound + 1, id =>
    match profiles.own? id with
    | none => []
    | some own =>
      own :: (match includedBy? own id with
        | none => []
        | some included => layers profiles bound included)

/-- Layers from the most derived to the most basic laid onto each other. -/
def merged? : List (Version TechnicalProfile) → Option (Version TechnicalProfile)
  | [] => none
  | own :: rest =>
    some (match merged? rest with
      | none => own
      | some base => base.layer own)

/-- What a profile amounts to: its layers merged, with the ancestors of its highest
version. -/
def amounts? (profiles : Profiles) (id : String) : Option (Version TechnicalProfile) :=
  let latest := highest? (profiles.originals id)
  let ancestors := (latest.map fun v => v.body.ancestors).getD []
  (merged? (profiles.layers (profiles.length + 1) id)).map fun v =>
    { v with body := { v.body with ancestors } }

end Profiles

namespace Store

/-- The source of consolidated versions: a file of the given name on top of all. -/
def consolidatedSource (fileName : String) (fileCount : Int) : Source :=
  ⟨fileName, consolidatedPolicyId, fileCount⟩

/-- A store with a consolidated version of every thing, where all includes come to an
end. -/
def layered (fileName : String) (fileCount : Int) (store : Store) : Store :=
  let source := consolidatedSource fileName fileCount
  { claimTypes := store.claimTypes.consolidated source
    technicalProfiles :=
      Collection.withConsolidated source (Profiles.amounts? store.technicalProfiles)
        store.technicalProfiles
    claimsTransformations := store.claimsTransformations.consolidated source
    displayControls := store.displayControls.consolidated source
    userJourneys := store.userJourneys.consolidated source
    subJourneys := store.subJourneys.consolidated source
    claimsProviders := store.claimsProviders.consolidated source }

/-- A store with a consolidated version of every thing. There is none if the includes of
a profile go on forever. -/
def withConsolidated (fileName : String) (fileCount : Int) (store : Store) :
    Except Policy.Fault Store :=
  if store.technicalProfiles.names.all (Profiles.ends store.technicalProfiles) then
    .ok (store.layered fileName fileCount)
  else .error .endlessIncludes

/-- A store whose includes are sound. -/
def checked (store : Store) : Except Policy.Fault Store := do
  Profiles.checkIncludes store.technicalProfiles
  pure store

/-- A store with what every profile rests on. -/
def withAncestors (store : Store) : Store :=
  { store with technicalProfiles := Profiles.withAncestors store.technicalProfiles }

/-- A store with its includes checked, its ancestors recorded and its versions
consolidated. -/
def resolve (fileName : String) (fileCount : Int) (store : Store) :
    Except Policy.Fault Store := do
  let store ← store.checked
  store.withAncestors.withConsolidated fileName fileCount

end Store
end TrustFramework
