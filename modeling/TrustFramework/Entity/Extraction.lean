import TrustFramework.Entity.Store
import TrustFramework.Policy.Validation
import TrustFramework.Text.Divided

/-!
# Extracting definitions from a policy

Every element of a policy tree that defines a thing adds one version to the
collection of its kind. Elements without an identifier define nothing, except that
a claims provider goes by its display name and is `Unknown` without one.

* `Found` — a definition found in a tree.
* `claimTypesIn`, …, `claimsProvidersIn` — the definitions of each kind in a tree.
* `Collection.record` — a found definition as one more version.
* `Store.extract` — the definitions of a policy added to a store.
-/

namespace TrustFramework

/-- A definition found in a policy tree. -/
structure Found (α : Type) where
  id : String
  path : String
  node : Value
  body : α

/-- The path of an element with an identifier. -/
def identifiedPath (base element id : String) : String :=
  base ++ "/" ++ element ++ "[@Id=\"" ++ id ++ "\"]"

/-- The definition an element holds, if it has an identifier. -/
def identified? {α : Type} (element base : String) (body : Value → α) (node : Value) :
    Option (Found α) :=
  (Policy.Node.id? node).map fun id => ⟨id, identifiedPath base element id, node, body node⟩

/-- The definitions in the elements below a path. -/
def foundIn {α : Type} (root : Value) (path : List String) (element : String)
    (body : Value → α) : List (Found α) :=
  (Policy.Node.children root (path ++ [element])).filterMap
    (identified? element (Policy.rootPath ++ "/" ++ "/".intercalate path) body)

/-! ### What an element defines -/

/-- The restriction of a claim type. -/
def ClaimRestriction.read? (node : Value) : Option ClaimRestriction :=
  match node.get "Restriction" with
  | .object fields =>
    let restriction := Value.object fields
    let pattern := restriction.get "Pattern"
    some
      { pattern := Policy.Node.attribute? pattern "RegularExpression"
        helpText := Policy.Node.attribute? pattern "HelpText"
        enumeration := (Policy.Node.asList (restriction.get "Enumeration")).map fun item =>
          ⟨attributeOrEmpty item "Value", attributeOrEmpty item "Text",
            flag item "SelectByDefault"⟩ }
  | _ => none

/-- The claim type an element defines. -/
def ClaimType.read (node : Value) : ClaimType :=
  { displayName := Policy.Node.textOf? node "DisplayName"
    dataType := Policy.Node.textOf? node "DataType"
    userInputType := Policy.Node.textOf? node "UserInputType"
    mask := Policy.Node.textOf? node "Mask"
    adminHelpText := Policy.Node.textOf? node "AdminHelpText"
    userHelpText := Policy.Node.textOf? node "UserHelpText"
    restriction := ClaimRestriction.read? node
    predicateValidation :=
      Policy.Node.attribute? (node.get "PredicateValidationReference") "Id" }

/-- The transformation an element defines. -/
def ClaimsTransformation.read (node : Value) : ClaimsTransformation :=
  { method := Policy.Node.attribute? node "TransformationMethod"
    inputClaims := ClaimReference.readAll node "InputClaims" "InputClaim"
    inputParameters := (Policy.Node.children node ["InputParameters", "InputParameter"]).map
      fun item => ⟨attributeOrEmpty item "Id", Policy.Node.attribute? item "DataType",
        Policy.Node.attribute? item "Value"⟩
    outputClaims := ClaimReference.readAll node "OutputClaims" "OutputClaim" }

/-- The display control an element defines. -/
def DisplayControl.read (node : Value) : DisplayControl :=
  { controlType := Policy.Node.attribute? node "UserInterfaceControlType"
    displayClaims := ClaimReference.readAll node "DisplayClaims" "DisplayClaim"
    actions := (Policy.Node.children node ["Actions", "Action"]).map fun action =>
      ⟨attributeOrEmpty action "Id",
        referencesTo action "ValidationClaimsExchange"
          "ValidationClaimsExchangeTechnicalProfile" "TechnicalProfileReferenceId"⟩ }

/-- The name of the provider behind a protocol: the last part of its handler's name,
or the name of the protocol. -/
def providerName? (protocol : Value) : Option String :=
  match Policy.Node.solidAttribute? protocol "Handler" with
  | some handler => some (Text.afterLast '.' handler)
  | none => Policy.Node.attribute? protocol "Name"

/-- The metadata of a technical profile: for each key the last text. -/
def readMetadata (node : Value) : Fields String :=
  Fields.ofPairs ((Policy.Node.children node ["Metadata", "Item"]).filterMap fun item =>
    (Policy.Node.solidAttribute? item "Key").map fun key =>
      (key, (Policy.Node.text? item).getD ""))

/-- The technical profile an element defines, with the name of its claims provider. -/
def TechnicalProfile.read (claimsProvider : String) (node : Value) : TechnicalProfile :=
  let protocol := node.get "Protocol"
  { displayName := Policy.Node.textOf? node "DisplayName"
    description := Policy.Node.textOf? node "Description"
    protocolName := Policy.Node.attribute? protocol "Name"
    protocolHandler := Policy.Node.attribute? protocol "Handler"
    providerName := providerName? protocol
    claimsProvider := some claimsProvider
    metadata := readMetadata node
    inputTransformations :=
      referencesTo node "InputClaimsTransformations" "InputClaimsTransformation" "ReferenceId"
    inputClaims := ClaimReference.readAll node "InputClaims" "InputClaim"
    displayClaims := ClaimReference.readAll node "DisplayClaims" "DisplayClaim"
    persistedClaims := ClaimReference.readAll node "PersistedClaims" "PersistedClaim"
    outputClaims := ClaimReference.readAll node "OutputClaims" "OutputClaim"
    outputTransformations :=
      referencesTo node "OutputClaimsTransformations" "OutputClaimsTransformation"
        "ReferenceId"
    displayControls :=
      referencesTo node "DisplayClaims" "DisplayClaim" "DisplayControlReferenceId"
    validationProfiles :=
      referencesTo node "ValidationTechnicalProfiles" "ValidationTechnicalProfile"
        "ReferenceId"
    includes := Policy.Node.attribute? (node.get "IncludeTechnicalProfile") "ReferenceId"
    sessionProfile :=
      Policy.Node.attribute? (node.get "UseTechnicalProfileForSessionManagement")
        "ReferenceId" }

/-- The journey an element defines. Its issuer is that of its first step with one. -/
def UserJourney.read (node : Value) : UserJourney :=
  let steps := OrchestrationStep.readAll node
  { issuerProfile := steps.findSome? fun s => s.issuerProfile.filter fun id => !id.isEmpty
    steps }

/-- The sub-journey an element defines. -/
def SubJourney.read (node : Value) : SubJourney :=
  ⟨Policy.Node.attribute? node "Type", OrchestrationStep.readAll node⟩

/-! ### The definitions of a tree -/

/-- The elements of the claims providers of a policy. -/
def providerNodes (root : Value) : List Value :=
  Policy.Node.children root ["ClaimsProviders", "ClaimsProvider"]

/-- The name of a claims provider. -/
def providerLabel (node : Value) : String :=
  (Policy.Node.textOf? node "DisplayName").getD "Unknown"

/-- The path of a claims provider. -/
def providerPath (node : Value) : String :=
  Policy.rootPath ++ "/ClaimsProviders/ClaimsProvider[DisplayName=\"" ++
    providerLabel node ++ "\"]"

/-- The technical profiles of a claims provider. -/
def profilesOfProvider (node : Value) : List (Found TechnicalProfile) :=
  (Policy.Node.children node ["TechnicalProfiles", "TechnicalProfile"]).filterMap
    (identified? "TechnicalProfile" (providerPath node ++ "/TechnicalProfiles")
      (TechnicalProfile.read (providerLabel node)))

/-- The claim types of a policy. -/
def claimTypesIn (root : Value) : List (Found ClaimType) :=
  foundIn root ["BuildingBlocks", "ClaimsSchema"] "ClaimType" ClaimType.read

/-- The claims transformations of a policy. -/
def claimsTransformationsIn (root : Value) : List (Found ClaimsTransformation) :=
  foundIn root ["BuildingBlocks", "ClaimsTransformations"] "ClaimsTransformation"
    ClaimsTransformation.read

/-- The display controls of a policy. -/
def displayControlsIn (root : Value) : List (Found DisplayControl) :=
  foundIn root ["BuildingBlocks", "DisplayControls"] "DisplayControl" DisplayControl.read

/-- The claims providers of a policy. -/
def claimsProvidersIn (root : Value) : List (Found ClaimsProvider) :=
  (providerNodes root).map fun node =>
    ⟨providerLabel node, providerPath node, node,
      ⟨some (providerLabel node), (profilesOfProvider node).map Found.id⟩⟩

/-- The technical profiles of a policy: those of its claims providers, then that of
its relying party. -/
def technicalProfilesIn (root : Value) : List (Found TechnicalProfile) :=
  (providerNodes root).flatMap profilesOfProvider ++
    foundIn root ["RelyingParty"] "TechnicalProfile" (TechnicalProfile.read "RelyingParty")

/-- The user journeys of a policy. -/
def userJourneysIn (root : Value) : List (Found UserJourney) :=
  foundIn root ["UserJourneys"] "UserJourney" UserJourney.read

/-- The sub-journeys of a policy. -/
def subJourneysIn (root : Value) : List (Found SubJourney) :=
  foundIn root ["SubJourneys"] "SubJourney" SubJourney.read

/-! ### Adding them to a store -/

/-- A found definition as one more version. It overrides if another file has a
version of the same thing. -/
def Collection.record {α : Type} [Definition α] (source : Source) (c : Collection α)
    (found : Found α) : Collection α :=
  c.add
    { id := found.id
      source
      path := found.path
      isOverride := (c.originals found.id).any fun v => v.source.fileName ≠ source.fileName
      xml := Policy.Tree.fragment (Definition.element α) found.node
      body := found.body }

/-- Found definitions as more versions, in order. -/
def Collection.recordAll {α : Type} [Definition α] (source : Source) (c : Collection α)
    (found : List (Found α)) : Collection α :=
  found.foldl (Collection.record source) c

namespace Store

/-- The definitions of a policy tree added to a store. -/
def extract (store : Store) (source : Source) (tree : Value) : Store :=
  let root := tree.get Policy.rootName
  { claimTypes := store.claimTypes.recordAll source (claimTypesIn root)
    technicalProfiles := store.technicalProfiles.recordAll source (technicalProfilesIn root)
    claimsTransformations :=
      store.claimsTransformations.recordAll source (claimsTransformationsIn root)
    displayControls := store.displayControls.recordAll source (displayControlsIn root)
    userJourneys := store.userJourneys.recordAll source (userJourneysIn root)
    subJourneys := store.subJourneys.recordAll source (subJourneysIn root)
    claimsProviders := store.claimsProviders.recordAll source (claimsProvidersIn root) }

/-- How many versions a store has. -/
def count (store : Store) : Nat :=
  store.claimTypes.count + store.technicalProfiles.count +
    store.claimsTransformations.count + store.displayControls.count +
    store.userJourneys.count + store.subJourneys.count + store.claimsProviders.count

end Store
end TrustFramework
