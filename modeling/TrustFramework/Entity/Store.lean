import TrustFramework.Entity.Version

/-!
# The store of definitions

* `Kind` — the seven kinds of definitions, with their names.
* `Store` — a collection of each kind.
* `Store.reports` — the collection of a kind with every version as it is reported.
-/

namespace TrustFramework

/-- The kinds of definitions. -/
inductive Kind where
  | claimTypes
  | technicalProfiles
  | claimsTransformations
  | displayControls
  | userJourneys
  | subJourneys
  | claimsProviders
  deriving DecidableEq, Repr

namespace Kind

/-- The name of a kind. -/
def name : Kind → String
  | claimTypes => "claimTypes"
  | technicalProfiles => "technicalProfiles"
  | claimsTransformations => "claimsTransformations"
  | displayControls => "displayControls"
  | userJourneys => "userJourneys"
  | subJourneys => "subJourneys"
  | claimsProviders => "claimsProviders"

/-- All kinds. -/
def all : List Kind :=
  [claimTypes, technicalProfiles, claimsTransformations, displayControls, userJourneys,
    subJourneys, claimsProviders]

/-- The kind of a name. -/
def ofName? (s : String) : Option Kind := all.find? fun kind => kind.name = s

end Kind

/-- The definitions of all kinds. -/
structure Store where
  claimTypes : Collection ClaimType := []
  technicalProfiles : Collection TechnicalProfile := []
  claimsTransformations : Collection ClaimsTransformation := []
  displayControls : Collection DisplayControl := []
  userJourneys : Collection UserJourney := []
  subJourneys : Collection SubJourney := []
  claimsProviders : Collection ClaimsProvider := []

namespace Store

/-- A collection with the report of each version in its place. -/
def reported {α : Type} [Definition α] (c : Collection α) : Collection Value :=
  c.mapValues fun versions => versions.map fun v => { v with body := v.toValue }

/-- The reports of the versions of a kind. -/
def reports (store : Store) : Kind → Collection Value
  | .claimTypes => reported store.claimTypes
  | .technicalProfiles => reported store.technicalProfiles
  | .claimsTransformations => reported store.claimsTransformations
  | .displayControls => reported store.displayControls
  | .userJourneys => reported store.userJourneys
  | .subJourneys => reported store.subJourneys
  | .claimsProviders => reported store.claimsProviders

/-- A store for a report. -/
def toValue (store : Store) : Value :=
  .object (Kind.all.map fun kind =>
    (kind.name, .object ((store.reports kind).mapValues fun versions =>
      .list (versions.map Version.body))))

end Store
end TrustFramework
