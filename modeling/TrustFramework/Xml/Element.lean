import TrustFramework.Fields
import TrustFramework.Text.Blank
import TrustFramework.Xml.Character

/-!
# Elements

An element has a tag, attributes, the text before its first child, its children,
and the text between its end and the next tag. Tags and attribute names are in
Clark notation: `\x7buri\x7dname` with the braces written out for a name of a
namespace, the bare name otherwise.

* `Element` — the type.
* `clark`, `splitClark` — a name with its namespace, and back.
* `Element.indented` — the element with line breaks and indentation put where its
  text is blank.
* `Element.written` — the element as XML text.
-/

namespace TrustFramework
namespace Xml

/-! ### Names in Clark notation -/

/-- A name of a namespace; the empty namespace leaves the name bare. -/
def clark (uri name : String) : String :=
  if uri.isEmpty then name else "\x7b" ++ uri ++ "\x7d" ++ name

/-- The namespace and the bare name. -/
def splitClark (tag : String) : String × String :=
  match tag.toList with
  | '\x7b' :: rest =>
    match rest.span (· ≠ '\x7d') with
    | (uri, _ :: name) => (String.ofList uri, String.ofList name)
    | (uri, []) => (String.ofList uri, "")
  | _ => ("", tag)

/-- The bare name of a tag. -/
def bareName (tag : String) : String := (splitClark tag).2

/-! ### The type -/

/-- An element of a document. -/
inductive Element where
  | mk (tag : String) (attributes : Fields String) (text : String) (children : List Element)
      (tail : String)
  deriving Repr, Inhabited

namespace Element

/-- The tag. -/
def tag : Element → String
  | mk t _ _ _ _ => t

/-- The attributes. -/
def attributes : Element → Fields String
  | mk _ a _ _ _ => a

/-- The text before the first child. -/
def text : Element → String
  | mk _ _ t _ _ => t

/-- The children. -/
def children : Element → List Element
  | mk _ _ _ c _ => c

/-- The text behind the end of the element. -/
def tail : Element → String
  | mk _ _ _ _ t => t

/-- An element with other text behind it. -/
def withTail : Element → String → Element
  | mk t a x c _, tail => mk t a x c tail

/-! ### Indentation -/

/-- A line break and the indentation of a level. -/
def lineBreak (level : Nat) : String :=
  String.ofList ('\n' :: List.replicate (2 * level) ' ')

/-- A text, or `filler` in place of a blank one. -/
def fillBlank (s filler : String) : String := if Text.isBlankText s then filler else s

mutual
/-- An element at a level with its children on lines of their own. Text that is not
blank stays as it is. -/
def indentedAt (level : Nat) : Element → Element
  | mk tag attributes text [] tail => mk tag attributes text [] tail
  | mk tag attributes text (child :: rest) tail =>
    mk tag attributes (fillBlank text (lineBreak (level + 1)))
      (indentedChildren level (child :: rest)) tail

/-- The children of an element at a level. The line of the last one ends at the
level of its parent. -/
def indentedChildren (level : Nat) : List Element → List Element
  | [] => []
  | [child] =>
    [(indentedAt (level + 1) child).withTail
      (fillBlank child.tail (lineBreak level))]
  | child :: rest =>
    (indentedAt (level + 1) child).withTail (fillBlank child.tail (lineBreak (level + 1))) ::
      indentedChildren level rest
end

/-- An element with line breaks and indentation. -/
def indented (e : Element) : Element := indentedAt 0 e

/-! ### Writing -/

/-- A character of text. -/
def textChar (c : Char) : List Char :=
  if c = '&' then "&amp;".toList
  else if c = '<' then "&lt;".toList
  else if c = '>' then "&gt;".toList
  else [c]

/-- A character of an attribute value. -/
def valueChar (c : Char) : List Char :=
  if c = '"' then "&quot;".toList
  else if c = '\r' then "&#13;".toList
  else if c = '\n' then "&#10;".toList
  else if c = '\t' then "&#09;".toList
  else textChar c

/-- A text with its markup characters escaped. -/
def escapeText (s : String) : List Char := s.toList.flatMap textChar

/-- An attribute value with its markup characters and controls escaped. -/
def escapeValue (s : String) : List Char := s.toList.flatMap valueChar

/-- The prefixes of namespaces that need no other. -/
def standardPrefixes : Fields String :=
  [("http://www.w3.org/XML/1998/namespace", "xml"),
    ("http://www.w3.org/1999/xhtml", "html"),
    ("http://www.w3.org/1999/02/22-rdf-syntax-ns#", "rdf"),
    ("http://schemas.xmlsoap.org/wsdl/", "wsdl"),
    ("http://www.w3.org/2001/XMLSchema", "xs"),
    ("http://www.w3.org/2001/XMLSchema-instance", "xsi"),
    ("http://purl.org/dc/elements/1.1/", "dc")]

/-- The namespace and the bare name of a name that has both. -/
def qualified? (name : String) : Option (String × String) :=
  match name.toList with
  | '\x7b' :: rest =>
    match rest.reverse.span (· ≠ '\x7d') with
    | (bare, _ :: uri) => some (String.ofList uri.reverse, String.ofList bare.reverse)
    | (_, []) => none
  | _ => none

/-- Prefixes with one for the namespace of a name. A new one is counted. -/
def bindPrefix (bound : Fields String) (name : String) : Fields String :=
  match qualified? name with
  | none => bound
  | some (uri, _) =>
    if bound.has uri then bound
    else
      let pre := (standardPrefixes.get? uri).getD ("ns" ++ toString bound.length)
      if pre = "xml" then bound else bound.set uri pre

/-- A name as it is written, with the prefix of its namespace. -/
def prefixed (bound : Fields String) (name : String) : String :=
  match qualified? name with
  | none => name
  | some (uri, bare) =>
    ((bound.get? uri <|> standardPrefixes.get? uri).map fun pre => pre ++ ":" ++ bare).getD bare

mutual
/-- The names in an element, from the left. -/
def names : Element → List String
  | mk tag attributes _ children _ => tag :: (Fields.names attributes ++ namesOfAll children)

/-- The names in some elements, from the left. -/
def namesOfAll : List Element → List String
  | [] => []
  | e :: rest => names e ++ namesOfAll rest
end

/-- The prefixes of the namespaces in an element. -/
def prefixes (e : Element) : Fields String := e.names.foldl bindPrefix []

/-- Attributes as they stand in a tag. -/
def writtenAttributes (bound : Fields String) (attributes : Fields String) : List Char :=
  attributes.flatMap fun (name, value) =>
    ' ' :: ((prefixed bound name).toList ++ '=' :: '"' :: (escapeValue value ++ ['"']))

/-- The declarations of prefixes, in their order. -/
def declarations (bound : Fields String) : Fields String :=
  (bound.mergeSort fun a b => a.2 ≤ b.2).map fun (uri, pre) => ("xmlns:" ++ pre, uri)

mutual
/-- An element as XML text on the front of `rest`, with some attributes before its own.
One without text and children is a single tag. -/
def writeOnto (bound extra : Fields String) : Element → List Char → List Char
  | mk tag attributes text [] tail, rest =>
    let tag := (prefixed bound tag).toList
    let head := '<' :: (tag ++ writtenAttributes bound (extra ++ attributes))
    if text.isEmpty then head ++ ' ' :: '/' :: '>' :: (escapeText tail ++ rest)
    else
      head ++ '>' :: (escapeText text ++
        '<' :: '/' :: (tag ++ '>' :: (escapeText tail ++ rest)))
  | mk tag attributes text (child :: children) tail, rest =>
    let tag := (prefixed bound tag).toList
    '<' :: (tag ++ (writtenAttributes bound (extra ++ attributes) ++ '>' :: (escapeText text ++
      writeAllOnto bound (child :: children)
        ('<' :: '/' :: (tag ++ '>' :: (escapeText tail ++ rest))))))

/-- Elements as XML text, one behind the other, on the front of `rest`. -/
def writeAllOnto (bound : Fields String) : List Element → List Char → List Char
  | [], rest => rest
  | e :: es, rest => writeOnto bound [] e (writeAllOnto bound es rest)
end

/-- An element as XML text. The prefixes of its namespaces are declared in its tag. -/
def written (e : Element) : String :=
  String.ofList (writeOnto e.prefixes (declarations e.prefixes) e [])

end Element
end Xml
end TrustFramework
