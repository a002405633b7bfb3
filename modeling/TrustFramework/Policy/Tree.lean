import TrustFramework.Policy.Fault
import TrustFramework.Value
import TrustFramework.Xml.Reader

/-!
# Policy trees

A policy document as a value: attributes become fields whose names start with
`@_`, the text of an element that has attributes or children becomes the field
`#text`, and an element with neither is its text. Children of one name make one
field, a list as soon as there are two. Elements that a journey may repeat are
lists even when there is one of them.

* `Tree.convert` — an element as a value.
* `Tree.normalize` — the repeatable elements made lists, anywhere in a tree.
* `Tree.parse` — a document as a tree.
* `Tree.build` — the element a value describes.
* `Tree.fragment`, `Tree.serialize` — a value as XML.
-/

namespace TrustFramework
namespace Policy
namespace Tree

/-! ### Names of fields -/

/-- The name of the field that holds an attribute. -/
def attributeField (name : String) : String := "@_" ++ name

/-- The name of the field that holds an element's text. -/
def textField : String := "#text"

/-- The attribute a field holds, if it holds one. -/
def attributeOf? (field : String) : Option String :=
  match field.toList with
  | '@' :: '_' :: name => some (String.ofList name)
  | _ => none

/-- Whether a field holds an attribute. -/
def isAttribute (field : String) : Bool := (attributeOf? field).isSome

/-- The elements that are always lists. -/
def repeatable : List String :=
  ["UserJourney", "SubJourney", "OrchestrationStep", "Precondition", "ClaimsExchange",
    "ClaimsProviderSelection"]

/-! ### From elements to values -/

/-- Prefixes for the namespaces of attributes. -/
abbrev Prefixes := Fields String

/-- The prefixes that need no declaration. -/
def knownPrefixes : Prefixes :=
  [("http://www.w3.org/2001/XMLSchema-instance", "xsi"),
    ("http://www.w3.org/2001/XMLSchema", "xs")]

/-- The prefixes in use: the known ones and, by namespace, the last declared. -/
def prefixesOf (declared : List (String × String)) : Prefixes :=
  (declared.filter fun d => !d.1.isEmpty).foldl (fun acc d => acc.set d.2 d.1) knownPrefixes

/-- The name of an attribute with the prefix of its namespace, if that has one. -/
def attributeName (prefixes : Prefixes) (name : String) : String :=
  let (uri, bare) := Xml.splitClark name
  if uri.isEmpty then bare
  else match prefixes.get? uri with
    | some pre => pre ++ ":" ++ bare
    | none => bare

/-- The fields of some attributes. -/
def attributeFields (prefixes : Prefixes) (attributes : Fields String) : Fields Value :=
  Fields.ofPairs (attributes.map fun (name, value) =>
    (attributeField (attributeName prefixes name), .text value))

/-- A child put among fields: alone, or behind the ones of its name. -/
def addChild (fields : Fields Value) (name : String) (value : Value) : Fields Value :=
  match fields.get? name with
  | none => fields.set name value
  | some (.list items) => fields.set name (.list (items ++ [value]))
  | some first => fields.set name (.list [first, value])

mutual
/-- An element as a value. -/
def convert (prefixes : Prefixes) : Xml.Element → Value
  | .mk _ attributes text children _ =>
    let trimmed := Text.trim text
    if attributes.isEmpty && children.isEmpty then .text trimmed
    else
      let fields := convertChildren prefixes children (attributeFields prefixes attributes)
      .object (if trimmed.isEmpty then fields else fields.set textField (.text trimmed))

/-- Children put among fields, in order. -/
def convertChildren (prefixes : Prefixes) : List Xml.Element → Fields Value → Fields Value
  | [], fields => fields
  | .mk tag attributes text children tail :: rest, fields =>
    convertChildren prefixes rest
      (addChild fields (Xml.bareName tag)
        (convert prefixes (.mk tag attributes text children tail)))
end

/-! ### Normal form -/

/-- The value of a repeatable element as a list. -/
def listed (name : String) (v : Value) : Value :=
  if repeatable.contains name && !v.isList then .list [v] else v

mutual
/-- A tree with every repeatable element a list. -/
def normalize : Value → Value
  | .list items => .list (normalizeItems items)
  | .object fields => .object (normalizeFields fields)
  | v => v

/-- The items of a list in normal form. -/
def normalizeItems : List Value → List Value
  | [] => []
  | v :: rest => normalize v :: normalizeItems rest

/-- The fields of an object in normal form. -/
def normalizeFields : List (String × Value) → List (String × Value)
  | [] => []
  | (name, v) :: rest => (name, listed name (normalize v)) :: normalizeFields rest
end

/-! ### Reading -/

/-- The fields of the namespaces a document declares. -/
def namespaceFields (declared : List (String × String)) : Fields Value :=
  Fields.ofPairs (declared.map fun (pre, uri) =>
    (attributeField (if pre.isEmpty then "xmlns" else "xmlns:" ++ pre), .text uri))

/-- The value of a root as fields. -/
def rootFields : Value → Fields Value
  | .object fields => fields
  | v => if v.isHollow then [] else [(textField, v)]

/-- The tree of a document. Every namespace it declares stands on the root. -/
def ofDocument (document : Xml.Document) : Value :=
  let root := convert (prefixesOf document.declared) document.root
  let fields := (namespaceFields document.declared).update (rootFields root)
  normalize (.object [(Xml.bareName document.root.tag, .object fields)])

/-- The tree of a policy document. -/
def parse (xml : String) : Except Fault Value :=
  if Text.isBlankText xml then .error .emptyDocument
  else match Xml.Document.read xml with
    | .ok document => .ok (ofDocument document)
    | .error .malformed => .error .malformed
    | .error .outside => .error .outsideContent

/-! ### From values to elements -/

/-- The attributes among fields, as text. -/
def attributesAmong : List (String × Value) → Fields String
  | [] => []
  | (field, v) :: rest =>
    match attributeOf? field with
    | some name => (name, v.shown) :: attributesAmong rest
    | none => attributesAmong rest

/-- The text among fields, empty if there is none. -/
def textAmong : List (String × Value) → String
  | [] => ""
  | (field, v) :: rest => if field = textField then v.shown else textAmong rest

mutual
/-- The element of a name that a value describes. -/
def build (name : String) : Value → Xml.Element
  | .object fields => .mk name (attributesAmong fields) (textAmong fields) (buildFields fields) ""
  | .null => .mk name [] "" [] ""
  | v => .mk name [] v.shown [] ""

/-- The elements among fields, one for every item of a list. -/
def buildFields : List (String × Value) → List Xml.Element
  | [] => []
  | (field, v) :: rest =>
    if isAttribute field || field = textField then buildFields rest
    else match v with
      | .list items => buildItems field items ++ buildFields rest
      | v => build field v :: buildFields rest

/-- The elements of a name that the items of a list describe. -/
def buildItems (name : String) : List Value → List Xml.Element
  | [] => []
  | v :: rest => build name v :: buildItems name rest
end

/-- A value as an XML fragment with indentation. -/
def fragment (name : String) (v : Value) : String := (build name v).indented.written

/-- The first line of every document. -/
def declaration : String := "<?xml version=\"1.0\" encoding=\"utf-8\"?>"

/-- How many roots a tree has. -/
def rootsOf : Value → List (String × Value)
  | .object fields => fields
  | _ => []

/-- A tree as an XML document. -/
def serialize (tree : Value) : Except Fault String :=
  match rootsOf tree with
  | [(name, value)] => .ok (declaration ++ "\n" ++ fragment name value ++ "\n")
  | roots => .error (.rootCount roots.length)

end Tree
end Policy
end TrustFramework
