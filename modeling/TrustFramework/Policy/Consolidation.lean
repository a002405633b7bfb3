import TrustFramework.Policy.Merge
import TrustFramework.Policy.Validation

/-!
# Consolidating policies

Policies given from the most basic to the most derived become one. The elements
with identifiers merge section by section, the languages of the user interface
add up, claims providers merge by their names and their profiles by identifier,
the relying party is that of the last policy that has one, and any other section
comes from the first policy that has it.

* `mergePolicy` — the root of a derived policy laid onto another root.
* `consolidate` — the merged policy of a list of trees.
-/

namespace TrustFramework
namespace Policy

/-! ### Sections -/

/-- The sections whose elements merge by identifier: the path of the section and
the name of its elements. -/
def idMergedSections : List (List String × String) :=
  [(["BuildingBlocks", "ClaimsSchema"], "ClaimType"),
    (["BuildingBlocks", "ClaimsTransformations"], "ClaimsTransformation"),
    (["BuildingBlocks", "ContentDefinitions"], "ContentDefinition"),
    (["BuildingBlocks", "DisplayControls"], "DisplayControl"),
    (["BuildingBlocks", "Predicates"], "Predicate"),
    (["BuildingBlocks", "PredicateValidations"], "PredicateValidation"),
    (["UserJourneys"], "UserJourney"),
    (["SubJourneys"], "SubJourney")]

/-- The fields of an object; anything else has none. -/
def containerFields : Option Value → Fields Value
  | some (.object fields) => fields
  | _ => []

/-- The fields at a path changed. Whatever is no object on the way becomes one. -/
def changeAt (root : Fields Value) (path : List String) (f : Fields Value → Fields Value) :
    Fields Value :=
  match path with
  | [] => f root
  | name :: rest =>
    root.set name (.object (changeAt (containerFields (root.get? name)) rest f))

/-- The elements of a name among fields. -/
def itemsAt (fields : Fields Value) (name : String) : List Value :=
  Node.asList ((fields.get? name).getD .null)

/-- One section merged by identifier. -/
def mergeSection (target source : Fields Value) (path : List String) (element : String) :
    Fields Value :=
  match Node.children (.object source) (path ++ [element]) with
  | [] => target
  | incoming =>
    changeAt target path fun fields =>
      fields.set element (.list (mergeItems Node.id? (itemsAt fields element) incoming))

/-! ### Languages -/

/-- The supported languages of both sides, attributes from the derived one. -/
def mergeLanguages (current languages : Fields Value) : Fields Value :=
  let all := itemsAt current "SupportedLanguage" ++ itemsAt languages "SupportedLanguage"
  let texts := distinct (all.map fun v => (Node.text? v).getD "")
  let attributes := languages.filter fun entry => Tree.isAttribute entry.1
  (current.update attributes).set "SupportedLanguage"
    (.list ((texts.filter fun s => !s.isEmpty).map .text))

/-- The localization of both sides. -/
def mergeLocalized (incoming localization : Fields Value) : Fields Value :=
  let localization := match incoming.get? "SupportedLanguages" with
    | some (.object languages) =>
      localization.set "SupportedLanguages"
        (match localization.get? "SupportedLanguages" with
          | some (.object current) => .object (mergeLanguages current languages)
          | _ => .object languages)
    | _ => localization
  match itemsAt incoming "LocalizedResources" with
  | [] => localization
  | resources =>
    localization.set "LocalizedResources"
      (.list (mergeItems Node.id? (itemsAt localization "LocalizedResources") resources))

/-- The section of the user interface languages merged. -/
def mergeLocalization (target source : Fields Value) : Fields Value :=
  match Node.children (.object source) ["BuildingBlocks", "Localization"] with
  | .object incoming :: _ =>
    changeAt target ["BuildingBlocks", "Localization"] (mergeLocalized incoming)
  | _ => target

/-! ### Claims providers -/

/-- The name a claims provider is known by. -/
def providerName? (provider : Value) : Option String := Node.textOf? provider "DisplayName"

/-- The technical profiles of a claims provider. -/
def profilesOf (provider : Value) : List Value :=
  Node.children provider ["TechnicalProfiles", "TechnicalProfile"]

/-- The fields of a provider but for its profiles. -/
def withoutProfiles : Value → Value
  | .object fields => .object (Fields.erase fields "TechnicalProfiles")
  | v => v

/-- A derived provider laid onto one of the same name. -/
def mergeProvider (current derived : Value) : Value :=
  let profiles := mergeItems Node.id? (profilesOf current) (profilesOf derived)
  match mergeElement current (withoutProfiles derived) with
  | .object fields =>
    .object (Fields.set fields "TechnicalProfiles"
      (.object [("TechnicalProfile", .list profiles)]))
  | v => v

/-- The claims providers of both sides, each with the name it is matched by. -/
def mergeNamed (existing : List (Option String × Value)) (incoming : List Value) :
    List (Option String × Value) :=
  incoming.foldl (fun providers derived =>
    match providerName? derived with
    | none => providers ++ [(none, derived)]
    | some name =>
      (replaceLast (fun p => p.1 == some name) (fun p => (p.1, mergeProvider p.2 derived))
        providers).getD (providers ++ [(some name, derived)])) existing

/-- The section of the claims providers merged. -/
def mergeProviders (target source : Fields Value) : Fields Value :=
  match Node.children (.object source) ["ClaimsProviders", "ClaimsProvider"] with
  | [] => target
  | incoming =>
    changeAt target ["ClaimsProviders"] fun fields =>
      let existing := (itemsAt fields "ClaimsProvider").map fun p => (providerName? p, p)
      fields.set "ClaimsProvider" (.list ((mergeNamed existing incoming).map Prod.snd))

/-! ### Policies -/

/-- The sections with rules of their own. -/
def handledSections : List String :=
  ["BuildingBlocks", "ClaimsProviders", "UserJourneys", "SubJourneys", "RelyingParty",
    "BasePolicy"]

/-- The sections that only the derived policy has. -/
def addNewSections (target source : Fields Value) : Fields Value :=
  source.foldl (fun target entry =>
    if Tree.isAttribute entry.1 || handledSections.contains entry.1 || target.has entry.1 then
      target
    else target.set entry.1 entry.2) target

/-- The relying party of the derived policy, if it has one. -/
def replaceRelyingParty (target source : Fields Value) : Fields Value :=
  match source.get? "RelyingParty" with
  | some party => target.set "RelyingParty" party
  | none => target

/-- The root of a derived policy laid onto another root. -/
def mergePolicy (target source : Fields Value) : Fields Value :=
  let target := idMergedSections.foldl (fun target part =>
    mergeSection target source part.1 part.2) target
  let target := mergeLocalization target source
  let target := mergeProviders target source
  let target := replaceRelyingParty target source
  addNewSections target source

/-- The root of a policy tree. -/
def policyRoot? (tree : Value) : Except Fault (Fields Value) :=
  match tree.get? rootName with
  | some (.object fields) => .ok fields
  | _ => .error .noPolicy

/-- The attributes of the last policy that the consolidated one carries. -/
def leafAttributes : List String := ["@_PolicyId", "@_TenantId", "@_PublicPolicyUri"]

/-- The attributes of the last policy put on the consolidated root. -/
def takeLeaf (merged leaf : Fields Value) : Fields Value :=
  leafAttributes.foldl (fun merged name =>
    match (leaf.get? name).bind Value.solid? with
    | some v => merged.set name v
    | none => merged) merged

/-- The consolidated policy of trees given base first. -/
def consolidate (trees : List Value) : Except Fault Value :=
  match trees with
  | [] => .error .nothingToMerge
  | first :: rest => do
    let base ← policyRoot? first
    let derived ← rest.mapM policyRoot?
    let merged := derived.foldl mergePolicy base
    let merged := takeLeaf merged (derived.getLastD base)
    pure (.object [(rootName, .object (merged.erase "BasePolicy"))])

end Policy
end TrustFramework
