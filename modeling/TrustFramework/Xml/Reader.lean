import TrustFramework.Text.LineEnds
import TrustFramework.Xml.Doctype
import TrustFramework.Xml.Element

/-!
# Reading documents

A document is read from the left onto a stack of open elements, once its line
ends are settled. Comments and instructions vanish and the text around them
joins; references, character data sections and the white space of attribute
values are settled; names are resolved against the namespaces in scope. The text
behind the end of a child belongs to no element.

* `Reading` — the open elements, what the document declared, and its root.
* `Reading.open?`, `Reading.addChar`, `Reading.close?` — a start tag, a character
  and an end tag.
* `readContent` — everything between tags.
* `Document.read` — the document a text spells, or what is wrong with it.
-/

namespace TrustFramework
namespace Xml

/-- A document: its root, and the namespaces it declares anywhere, as pairs of a
prefix and a namespace in document order. -/
structure Document where
  root : Element
  declared : List (String × String)

/-- Why a text spells no document. -/
inductive Defect where
  /-- The text is not well formed. -/
  | malformed
  /-- The text is well formed but for content that stands outside of it. -/
  | outside
  deriving DecidableEq, Repr

/-- An element whose end was not read yet. Text and children are reversed. -/
structure OpenElement where
  /-- The name as it was written. -/
  name : String
  tag : String
  attributes : Fields String
  text : List Char
  children : List Element
  /-- The namespaces in scope, the innermost first. -/
  scope : Fields String

/-- What was read of a document. -/
structure Reading where
  /-- The open elements, the innermost first. -/
  stack : List OpenElement := []
  /-- The namespaces declared so far, the last first. -/
  declared : List (String × String) := []
  /-- The root, once it is closed. -/
  root : Option Element := none
  /-- Whether a name was met whose text stands outside the document. -/
  outside : Bool := false

/-! ### Namespaces -/

/-- The namespace of the prefix `xml`, bound in every document. -/
def xmlNamespace : String := "http://www.w3.org/XML/1998/namespace"

/-- The namespace of namespace declarations themselves. -/
def xmlnsNamespace : String := "http://www.w3.org/2000/xmlns/"

/-- The prefix an attribute declares, empty for the default namespace; none if the
attribute declares nothing. -/
def declaredPrefix? (name : String) : Option String :=
  if name = "xmlns" then some ""
  else match splitName name with
    | ("xmlns", rest) => some rest
    | _ => none

/-- Whether a prefix may be bound to a namespace. -/
def mayBind (pre uri : String) : Bool :=
  !(uri.isEmpty && !pre.isEmpty) && pre ≠ "xmlns" && !uri.toList.contains '\x7d' &&
    ((pre = "xml") == (uri = xmlNamespace)) && uri ≠ xmlnsNamespace

/-- The namespaces in scope with those that some attributes declare. -/
def bindAll? (scope : Fields String) : List (String × String) → Option (Fields String)
  | [] => some scope
  | (name, value) :: rest =>
    match declaredPrefix? name with
    | none => bindAll? scope rest
    | some pre => if mayBind pre value then bindAll? ((pre, value) :: scope) rest else none

/-- A written name in Clark notation. Without a prefix an element takes the default
namespace and an attribute none. -/
def resolve? (scope : Fields String) (isElement : Bool) (name : String) : Option String :=
  match splitName name with
  | ("", bare) => some (if isElement then clark ((scope.get? "").getD "") bare else bare)
  | (pre, bare) => (scope.get? pre).map fun uri => clark uri bare

/-- Whether no text occurs twice in a list. -/
def allDistinct : List String → Bool
  | [] => true
  | s :: rest => !rest.contains s && allDistinct rest

/-! ### Tags -/

/-- The values of the attributes of a tag. -/
def settleValues? (d : Doctype) (element : String) :
    List (String × List Char) → Option (List (String × String))
  | [] => some []
  | (name, raw) :: rest => do
    let value ← d.attributeValue? element name raw
    let rest ← settleValues? d element rest
    pure ((name, String.ofList value) :: rest)

/-- The attributes of a tag that declare no namespace, with their names resolved. -/
def resolveAll? (scope : Fields String) : List (String × String) → Option (Fields String)
  | [] => some []
  | (name, value) :: rest =>
    if (declaredPrefix? name).isSome then resolveAll? scope rest
    else do
      let name ← resolve? scope false name
      let rest ← resolveAll? scope rest
      pure ((name, value) :: rest)

namespace Reading

/-- The namespaces in scope. -/
def scope (r : Reading) : Fields String :=
  match r.stack with
  | top :: _ => top.scope
  | [] => [("xml", xmlNamespace)]

/-- A start tag: its attributes settled, its namespaces declared, its names
resolved. -/
def open? (r : Reading) (d : Doctype) (name : String) (raw : List (String × List Char)) :
    Option Reading := do
  if !allDistinct (raw.map Prod.fst) then none
  let given ← settleValues? d name raw
  let presets := (d.presets name (raw.map Prod.fst)).map fun (n, v) => (n, String.ofList v)
  let all := given ++ presets
  let scope ← bindAll? r.scope all
  let tag ← resolve? scope true name
  let attributes ← resolveAll? scope all
  if !allDistinct (attributes.map Prod.fst) then none
  let declared := all.filterMap fun (n, v) => (declaredPrefix? n).map fun pre => (pre, v)
  pure { r with
    stack := ⟨name, tag, attributes, [], [], scope⟩ :: r.stack
    declared := declared.reverse ++ r.declared }

/-- A character of text. Behind a child it belongs to nothing. -/
def addChar (r : Reading) (c : Char) : Reading :=
  match r.stack with
  | top :: below =>
    if top.children.isEmpty then { r with stack := { top with text := c :: top.text } :: below }
    else r
  | [] => r

/-- An element becomes the last child of the innermost open one, or the root. -/
def attach (r : Reading) (e : Element) : Reading :=
  match r.stack with
  | top :: below => { r with stack := { top with children := e :: top.children } :: below }
  | [] => { r with root := some e }

/-- An end tag closes the innermost element, which must have the same name. -/
def close? (r : Reading) (name : String) : Option Reading :=
  match r.stack with
  | top :: below =>
    if top.name = name then
      some ({ r with stack := below }.attach
        (.mk top.tag top.attributes (String.ofList top.text.reverse) top.children.reverse ""))
    else none
  | [] => none

/-- How many elements are open. -/
def level (r : Reading) : Nat := r.stack.length

end Reading

/-! ### Content -/

/-- An attribute value between its quotes as it is written, and the rest. -/
def readRaw? (quote : Char) : List Char → List Char → Option (List Char × List Char)
  | [], _ => none
  | c :: rest, acc =>
    if c = quote then some (acc.reverse, rest)
    else if isChar c ∧ c ≠ '<' then readRaw? quote rest (c :: acc)
    else none

/-- One attribute: a qualified name, an equals sign and a quoted value. -/
def readAttribute? (cs : List Char) : Option ((String × List Char) × List Char) := do
  let (name, rest) ← readQualifiedName? cs
  match skipSpace rest with
  | '=' :: rest =>
    match skipSpace rest with
    | quote :: rest =>
      if quote = '"' ∨ quote = '\'' then
        let (raw, rest) ← readRaw? quote rest []
        pure ((String.ofList name, raw), rest)
      else none
    | [] => none
  | _ => none

/-- The attributes of a tag behind its name, whether the tag closes itself, and the
rest. White space stands before every attribute. -/
def readAttributes? : Nat → List Char → List (String × List Char) →
    Option (List (String × List Char) × Bool × List Char)
  | 0, _, _ => none
  | fuel + 1, cs, acc =>
    match cs with
    | '>' :: rest => some (acc.reverse, false, rest)
    | '/' :: '>' :: rest => some (acc.reverse, true, rest)
    | c :: _ =>
      if isSpace c then
        match skipSpace cs with
        | '>' :: rest => some (acc.reverse, false, rest)
        | '/' :: '>' :: rest => some (acc.reverse, true, rest)
        | cs => do
          let (given, rest) ← readAttribute? cs
          readAttributes? fuel rest (given :: acc)
      else none
    | [] => none

/-- A character data section from behind its opening: every character up to the end
mark is text. -/
def readSection? (r : Reading) : List Char → Option (Reading × List Char)
  | ']' :: ']' :: '>' :: rest => some (r, rest)
  | c :: rest => if isChar c then readSection? (r.addChar c) rest else none
  | [] => none

/-- A start tag from behind its opening bracket, with the end tag if it closes
itself. -/
def readStart? (d : Doctype) (r : Reading) (cs : List Char) : Option (Reading × List Char) := do
  let (name, rest) ← readQualifiedName? cs
  let (raw, closed, rest) ← readAttributes? (rest.length + 1) rest []
  let name := String.ofList name
  let r ← r.open? d name raw
  let r ← if closed then r.close? name else some r
  pure (r, rest)

/-- An end tag from behind its opening mark. -/
def readClose? (r : Reading) (cs : List Char) : Option (Reading × List Char) := do
  let (name, rest) ← readQualifiedName? cs
  match skipSpace rest with
  | '>' :: rest => (r.close? (String.ofList name)).map fun r => (r, rest)
  | _ => none

/-- A reference up to its semicolon, and the rest. -/
def readReference? (cs : List Char) : Option (Reference × List Char) :=
  match cs.span (· ≠ ';') with
  | (body, _ :: rest) => (Reference.ofBody? body).map fun reference => (reference, rest)
  | (_, []) => none

/-- Content up to the end of the root, or of the text. `expand` reads the text that
a name stands for; no end tag may close an element that was open at `floor`. Every
step takes a character, so as much fuel as there are characters is enough. -/
def readContent (d : Doctype) (expand : String → Reading → Option Reading) (floor : Nat) :
    Nat → Reading → List Char → Option (Reading × List Char)
  | 0, r, cs => some (r, cs)
  | fuel + 1, r, cs =>
    if r.stack.isEmpty then some (r, cs)
    else match cs with
    | [] => some (r, [])
    | '<' :: '/' :: rest =>
      if r.level ≤ floor then none
      else match readClose? r rest with
        | some (r, rest) => readContent d expand floor fuel r rest
        | none => none
    | '<' :: '!' :: '-' :: '-' :: rest =>
      match skipComment? rest with
      | some rest => readContent d expand floor fuel r rest
      | none => none
    | '<' :: '!' :: '[' :: 'C' :: 'D' :: 'A' :: 'T' :: 'A' :: '[' :: rest =>
      match readSection? r rest with
      | some (r, rest) => readContent d expand floor fuel r rest
      | none => none
    | '<' :: '?' :: rest =>
      match skipInstruction? rest with
      | some rest => readContent d expand floor fuel r rest
      | none => none
    | '<' :: rest =>
      match readStart? d r rest with
      | some (r, rest) => readContent d expand floor fuel r rest
      | none => none
    | '&' :: rest =>
      match readReference? rest with
      | some (.character c, rest) => readContent d expand floor fuel (r.addChar c) rest
      | some (.entity name, rest) =>
        match expand name r with
        | some r => readContent d expand floor fuel r rest
        | none => none
      | none => none
    | ']' :: ']' :: '>' :: _ => none
    | c :: rest => if isChar c then readContent d expand floor fuel (r.addChar c) rest else none

/-- The text an entity stands for, read as content of the open element: it closes
what it opens and nothing else. The first number bounds how deep references may lie
inside one another. -/
def expandContent (d : Doctype) : Nat → String → Reading → Option Reading
  | 0, _, _ => none
  | depth + 1, name, r =>
    match d.entities.get? name with
    | some (.internal text) =>
      match readContent d (expandContent d depth) r.level (text.length + 1) r text with
      | some (after, []) => if after.level = r.level then some after else none
      | _ => none
    | some .external => some { r with outside := true }
    | some .unparsed => none
    | none => if d.lenient then some { r with outside := true } else none

/-! ### Documents -/

/-- The white space, comments and instructions at the front of a text are skipped. -/
def skipMisc? : Nat → List Char → Option (List Char)
  | 0, cs => some cs
  | fuel + 1, cs =>
    match skipSpace cs with
    | '<' :: '!' :: '-' :: '-' :: rest => (skipComment? rest).bind (skipMisc? fuel)
    | '<' :: '?' :: rest => (skipInstruction? rest).bind (skipMisc? fuel)
    | cs => some cs

/-- One setting of the declaration of XML, if there is one more. -/
def readSetting? (cs : List Char) : Option (Option (String × List Char) × List Char) :=
  match cs with
  | [] => some (none, [])
  | c :: _ =>
    if isSpace c then
      match skipSpace cs with
      | [] => some (none, [])
      | cs =>
        let (name, rest) := cs.span fun c => c ≠ '=' ∧ ¬ isSpace c
        match name, skipSpace rest with
        | _ :: _, '=' :: rest =>
          match skipSpace rest with
          | quote :: rest =>
            if quote = '"' ∨ quote = '\'' then
              let (value, rest) := rest.span fun c =>
                c.isAlphanum || c = '.' || c = '-' || c = '_'
              match rest with
              | last :: rest =>
                if last = quote then some (some (String.ofList name, value), rest) else none
              | [] => none
            else none
          | [] => none
        | _, _ => none
    else none

/-- Whether the last setting of the declaration of XML says that the document
stands alone. -/
def standaloneOf? : Option (String × List Char) → List Char → Option Bool
  | none, _ => some false
  | some (name, value), rest =>
    if name = "standalone" ∧ (skipSpace rest).isEmpty then
      if value = "yes".toList then some true
      else if value = "no".toList then some false
      else none
    else none

/-- The declaration of XML from behind its target: a version, then perhaps an
encoding, then perhaps whether the document stands alone. -/
def readSettings? (cs : List Char) : Option Bool := do
  let (version, rest) ← readSetting? cs
  match version with
  | some ("version", _) =>
    let (second, rest) ← readSetting? rest
    match second with
    | some ("encoding", value) =>
      if value.head?.any Char.isAlpha then
        let (third, rest) ← readSetting? rest
        standaloneOf? third rest
      else none
    | _ => standaloneOf? second rest
  | _ => none

/-- The declaration of XML at the very front of a text, if there is one: whether the
document stands alone, and the rest. -/
def readDeclaration? (cs : List Char) : Option (Bool × List Char) :=
  match cs with
  | '<' :: '?' :: 'x' :: 'm' :: 'l' :: c :: rest =>
    if isSpace c ∨ c = '?' then do
      let (settings, rest) ← untilMark? (c :: rest) []
      let standalone ← readSettings? settings
      pure (standalone, rest)
    else some (false, cs)
  | _ => some (false, cs)

/-- The document type declaration, if one comes next. -/
def readType? (standalone : Bool) (cs : List Char) : Option (Doctype × List Char) :=
  match cs with
  | '<' :: '!' :: 'D' :: 'O' :: 'C' :: 'T' :: 'Y' :: 'P' :: 'E' :: rest =>
    if followedBy [] rest then readDoctype? standalone rest else none
  | _ => some ({ standalone := standalone }, cs)

namespace Document

/-- The root behind the declarations, and nothing of weight around it. -/
def readRoot? (d : Doctype) (cs : List Char) : Option Reading := do
  let cs ← skipMisc? (cs.length + 1) cs
  match cs with
  | '<' :: rest =>
    let (r, rest) ← readStart? d {} rest
    let (r, rest) ← readContent d (expandContent d d.depth) 0 (rest.length + 1) r rest
    let rest ← skipMisc? (rest.length + 1) rest
    if rest.isEmpty then some r else none
  | _ => none

/-- What a text holds, if it is well formed. Byte order marks at the front do not
count. -/
def reading? (s : String) : Option Reading := do
  let cs := Text.settleLineEnds (s.toList.dropWhile (·.toNat = 0xfeff))
  let (standalone, cs) ← readDeclaration? cs
  let cs ← skipMisc? (cs.length + 1) cs
  let (d, cs) ← readType? standalone cs
  readRoot? d cs

/-- The document a text spells, or what is wrong with it. -/
def read (s : String) : Except Defect Document :=
  match reading? s with
  | some ⟨_, declared, some root, outside⟩ =>
    if outside then .error .outside else .ok ⟨root, declared.reverse⟩
  | _ => .error .malformed

end Document
end Xml
end TrustFramework
