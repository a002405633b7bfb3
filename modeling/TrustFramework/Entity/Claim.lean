import TrustFramework.Policy.Node

/-!
# References to claims

Profiles, transformations and display controls list the claims they take, show,
store and return. A list of a derived definition replaces, one by one, the
references of its base to the same claim and adds its own behind them.

* `ClaimReference` — one entry of such a list.
* `ClaimReference.readAll`, `referencesTo` — the entries of a node.
* `layerClaims` — a list of a derived definition laid onto that of its base.
-/

namespace TrustFramework

/-- What a list of claims has to say about one claim. -/
structure ClaimReference where
  claimType : String
  /-- The name the other party knows the claim by. -/
  partnerClaimType : Option String := none
  defaultValue : Option String := none
  alwaysUseDefaultValue : Bool := false
  required : Bool := false
  displayControl : Option String := none
  transformationClaimType : Option String := none
  deriving DecidableEq, Repr, Inhabited

/-- Whether an optional text is the word `true`, in any case, with blanks around it. -/
def isTrueText (s : Option String) : Bool := (Text.trim (s.getD "")).toLower == "true"

/-- Whether an attribute of a node is the word `true`. -/
def flag (node : Value) (name : String) : Bool :=
  isTrueText (Policy.Node.attribute? node name)

/-- An attribute as text, empty if it is absent. -/
def attributeOrEmpty (node : Value) (name : String) : String :=
  (Policy.Node.attribute? node name).getD ""

namespace ClaimReference

/-- The reference a node holds, if it names a claim. -/
def read? (node : Value) : Option ClaimReference :=
  (Policy.Node.solidAttribute? node "ClaimTypeReferenceId").map fun claimType =>
    { claimType
      partnerClaimType := Policy.Node.attribute? node "PartnerClaimType"
      defaultValue := Policy.Node.attribute? node "DefaultValue"
      alwaysUseDefaultValue := flag node "AlwaysUseDefaultValue"
      required := flag node "Required"
      displayControl := Policy.Node.attribute? node "DisplayControlReferenceId"
      transformationClaimType := Policy.Node.attribute? node "TransformationClaimType" }

/-- The references in a container of a node, in order. -/
def readAll (node : Value) (container element : String) : List ClaimReference :=
  (Policy.Node.children node [container, element]).filterMap read?

/-- A reference for a report. -/
def toValue (c : ClaimReference) : Value :=
  .object
    [("claimTypeReferenceId", .text c.claimType),
      ("partnerClaimType", .ofText? c.partnerClaimType),
      ("defaultValue", .ofText? c.defaultValue),
      ("alwaysUseDefaultValue", .bool c.alwaysUseDefaultValue),
      ("required", .bool c.required),
      ("displayControlReferenceId", .ofText? c.displayControl),
      ("transformationClaimType", .ofText? c.transformationClaimType)]

end ClaimReference

/-- The last of some references to the same claim, or the given one. -/
def ClaimReference.overriddenBy (derived : List ClaimReference) (c : ClaimReference) :
    ClaimReference :=
  (derived.reverse.find? fun d => d.claimType = c.claimType).getD c

/-- The claims of a derived definition laid onto those of its base. -/
def layerClaims (base derived : List ClaimReference) : List ClaimReference :=
  base.map (ClaimReference.overriddenBy derived) ++
    derived.filter fun d => !(base.any fun c => c.claimType = d.claimType)

/-- The values of an attribute of the elements in a container, without repetition. -/
def referencesTo (node : Value) (container element name : String) : List String :=
  distinct ((Policy.Node.children node [container, element]).filterMap fun item =>
    Policy.Node.solidAttribute? item name)

end TrustFramework
