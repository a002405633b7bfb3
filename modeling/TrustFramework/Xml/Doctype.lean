import TrustFramework.Xml.Reference

/-!
# Document type declarations

What a document declares about itself before its root: the entities it may refer
to, and for each element the attributes that have a type or a default value. The
declarations inside the document are read; those outside are not, and then a name
that nothing declares may be declared there.

* `Doctype` — the declarations in force.
* `Doctype.expandValue?` — an attribute value with its references replaced.
* `Doctype.attributeValue?` — the same, with the white space of a type other than
  plain text reduced.
* `skipComment?`, `skipInstruction?` — what documents may hold anywhere.
* `readDoctype?` — a declaration from behind its keyword.
-/

namespace TrustFramework
namespace Xml

/-- An attribute declared for an element. -/
structure AttributeRule where
  /-- The attribute's name. -/
  name : String
  /-- Whether its value is a list of tokens rather than plain text. -/
  tokens : Bool
  /-- The value it has when a tag does not give one. -/
  preset : Option (List Char)
  deriving Repr

/-- The declarations in force. -/
structure Doctype where
  /-- The declared entities; the first declaration of a name counts. -/
  entities : Fields Entity := []
  /-- The attributes declared for each element, in order. -/
  attributes : Fields (List AttributeRule) := []
  /-- Whether the document says that nothing outside it matters. -/
  standalone : Bool := false
  /-- Whether declarations may stand outside the document. -/
  outside : Bool := false
  /-- Whether declarations are still taken in. -/
  reading : Bool := true
  deriving Repr, Inhabited

namespace Doctype

/-- Whether a name without a declaration may be declared outside. -/
def lenient (d : Doctype) : Bool := d.outside && !d.standalone

/-- As many references inside references as a document without a circle can have. -/
def depth (d : Doctype) : Nat := d.entities.length + 1

/-! ### Attribute values -/

/-- An attribute value with its references replaced and its white space made
spaces. The second argument holds, reversed, what was read of a reference;
`expand` gives the text a name stands for. -/
def expandFrom (expand : String → Option (List Char)) :
    List Char → Option (List Char) → Option (List Char)
  | [], none => some []
  | [], some _ => none
  | ';' :: rest, some body =>
    match Reference.ofBody? body.reverse with
    | none => none
    | some (.character c) => (expandFrom expand rest none).map (c :: ·)
    | some (.entity name) => do
      let text ← expand name
      let tail ← expandFrom expand rest none
      pure (text ++ tail)
  | c :: rest, some body => expandFrom expand rest (some (c :: body))
  | '&' :: rest, none => expandFrom expand rest (some [])
  | '<' :: _, none => none
  | c :: rest, none => (expandFrom expand rest none).map ((if isSpace c then ' ' else c) :: ·)

/-- The text a name stands for in an attribute value. The first number bounds how
deep references may lie inside one another. -/
def expandEntity (d : Doctype) : Nat → String → Option (List Char)
  | 0, _ => none
  | depth + 1, name =>
    match d.entities.get? name with
    | some (.internal text) => expandFrom (expandEntity d depth) text none
    | some _ => none
    | none => if d.lenient then some [] else none

/-- An attribute value with its references replaced. -/
def expandValue? (d : Doctype) (raw : List Char) : Option (List Char) :=
  expandFrom (expandEntity d d.depth) raw none

/-- A text with every run of spaces reduced to one and none at its ends. -/
def squeeze (cs : List Char) : List Char :=
  let reduced := cs.foldr
    (fun c tail => if c = ' ' ∧ (tail = [] ∨ tail.head? = some ' ') then tail else c :: tail) []
  reduced.dropWhile (· = ' ')

/-- The first declaration of an attribute of an element. -/
def rule? (d : Doctype) (element name : String) : Option AttributeRule :=
  ((d.attributes.get? element).getD []).find? (·.name = name)

/-- The value of an attribute in a tag. -/
def attributeValue? (d : Doctype) (element name : String) (raw : List Char) :
    Option (List Char) :=
  (d.expandValue? raw).map fun value =>
    if ((d.rule? element name).any (·.tokens)) then squeeze value else value

/-- The attributes an element has though its tag does not give them. -/
def presets (d : Doctype) (element : String) (given : List String) :
    List (String × List Char) :=
  ((d.attributes.get? element).getD []).filterMap fun rule =>
    if given.contains rule.name then none else rule.preset.map fun value => (rule.name, value)

end Doctype

/-! ### Comments and instructions -/

/-- What follows a comment, from behind its opening. Two hyphens only end it. -/
def skipComment? : List Char → Option (List Char)
  | '-' :: '-' :: '>' :: rest => some rest
  | '-' :: '-' :: _ => none
  | c :: rest => if isChar c then skipComment? rest else none
  | [] => none

/-- A text up to the end mark of an instruction, and what follows the mark. -/
def untilMark? : List Char → List Char → Option (List Char × List Char)
  | '?' :: '>' :: rest, acc => some (acc.reverse, rest)
  | c :: rest, acc => if isChar c then untilMark? rest (c :: acc) else none
  | [], _ => none

/-- Whether a name is kept for the declaration of XML itself. -/
def isReserved (name : List Char) : Bool := (name.map Char.toLower) == ['x', 'm', 'l']

/-- What follows an instruction, from behind its opening. -/
def skipInstruction? (cs : List Char) : Option (List Char) := do
  let (target, rest) ← readName? cs
  if isReserved target then none
  else match rest with
    | '?' :: '>' :: rest => some rest
    | c :: rest => if isSpace c then (untilMark? rest []).map Prod.snd else none
    | [] => none

/-! ### The parts of a declaration -/

/-- One part of a declaration. -/
inductive Mark where
  | name (text : String) (qualified : Bool)
  | token
  /-- A name with an occurrence sign. -/
  | repeated
  | literal (text : List Char)
  | percent
  | comma
  | bar
  | openBracket
  | closeBracket
  | openParen
  /-- A closing parenthesis with an occurrence sign or none. -/
  | closeParen (sign : Option Char)
  | pound (text : String)
  | close
  deriving DecidableEq, Repr

/-- A quoted text up to its closing quote, and the rest. -/
def untilQuote? (quote : Char) : List Char → List Char → Option (List Char × List Char)
  | [], _ => none
  | c :: rest, acc =>
    if c = quote then some (acc.reverse, rest)
    else if isChar c then untilQuote? quote rest (c :: acc)
    else none

/-- Whether a text goes on with white space or one of some characters. -/
def followedBy (marks : List Char) : List Char → Bool
  | c :: _ => isSpace c || marks.contains c
  | [] => false

/-- A name or name token, which may hold colons, and the sign of occurrence behind
it. -/
def readWord? (cs : List Char) : Option (Mark × List Char) :=
  let (word, rest) := cs.span fun c => isNameChar c || c = ':'
  match word with
  | [] => none
  | first :: tail =>
    let colons := tail.countP (· = ':')
    let simple := isNameStart first && colons = 0
    let qualified := isNameStart first && colons = 1 && tail.getLast? ≠ some ':'
    let mark := if simple then Mark.name (String.ofList word) false
      else if qualified then Mark.name (String.ofList word) true
      else Mark.token
    match rest with
    | c :: after =>
      if c = '+' ∨ c = '*' ∨ c = '?' then
        if simple || qualified then some (.repeated, after) else none
      else if followedBy ['>', ')', ',', '|', '[', '%'] rest then some (mark, rest)
      else none
    | [] => none

/-- The next part of a declaration, and the rest. -/
def readMark? (cs : List Char) : Option (Mark × List Char) :=
  match skipSpace cs with
  | [] => none
  | c :: rest =>
    if c = '"' ∨ c = '\'' then do
      let (text, rest) ← untilQuote? c rest []
      if followedBy ['>', '%', '['] rest then some (.literal text, rest) else none
    else if c = '%' then if followedBy ['%'] rest then some (.percent, rest) else none
    else if c = ',' then some (.comma, rest)
    else if c = '|' then some (.bar, rest)
    else if c = '[' then some (.openBracket, rest)
    else if c = ']' then some (.closeBracket, rest)
    else if c = '(' then some (.openParen, rest)
    else if c = '>' then some (.close, rest)
    else if c = '#' then do
      let (text, rest) ← readName? rest
      if followedBy [')', '>', '%', '|'] rest then some (.pound (String.ofList text), rest)
      else none
    else if c = ')' then
      match rest with
      | s :: after =>
        if s = '*' ∨ s = '?' ∨ s = '+' then some (.closeParen (some s), after)
        else if followedBy ['>', ',', '|', ')'] rest then some (.closeParen none, rest)
        else none
      | [] => none
    else readWord? (c :: rest)

/-- The parts of a declaration up to its closing mark, and the rest. -/
def readMarks? : Nat → List Char → List Mark → Option (List Mark × List Char)
  | 0, _, _ => none
  | fuel + 1, cs, acc => do
    let (mark, rest) ← readMark? cs
    if mark = .close then some (acc.reverse, rest) else readMarks? fuel rest (mark :: acc)

/-! ### What the declarations say -/

/-- Whether a text may identify something in public. -/
def isPublicId (cs : List Char) : Bool :=
  cs.all fun c => c.isAlphanum || " \r\n-'()+,./:=?;!*#@$_%".toList.contains c

/-- A reference to something outside: a public identifier with a system one, or a
system one alone. -/
def outsideId? : List Mark → Option (List Mark)
  | .name "SYSTEM" false :: .literal _ :: rest => some rest
  | .name "PUBLIC" false :: .literal p :: .literal _ :: rest =>
    if isPublicId p then some rest else none
  | _ => none

/-- A declared entity, with the parts behind its name. -/
def entityOf? (keep : Bool) (parts : List Mark) : Option Entity :=
  match parts with
  | [.literal text] => if keep then (entityText? text none).map .internal else some (.internal [])
  | _ =>
    match outsideId? parts with
    | some [] => some .external
    | some [.name "NDATA" false, .name _ false] => some .unparsed
    | _ => none

/-- A declared parameter; its value is never used. -/
def parameterOf? (keep : Bool) (parts : List Mark) : Option Unit :=
  match parts with
  | [.literal text] => if keep then (entityText? text none).map fun _ => () else some ()
  | _ => if outsideId? parts = some [] then some () else none

/-- A notation has an outside identifier or a public one alone. -/
def isNotation (parts : List Mark) : Bool :=
  match parts with
  | [.name "PUBLIC" false, .literal p] => isPublicId p
  | _ => outsideId? parts = some []

/-- The alternatives of an enumerated type up to the closing parenthesis. -/
def enumeration? (namesOnly : Bool) : List Mark → Option (List Mark)
  | .name _ qualified :: .bar :: rest =>
    if namesOnly && qualified then none else enumeration? namesOnly rest
  | .token :: .bar :: rest => if namesOnly then none else enumeration? namesOnly rest
  | .name _ qualified :: .closeParen none :: rest =>
    if namesOnly && qualified then none else some rest
  | .token :: .closeParen none :: rest => if namesOnly then none else some rest
  | _ => none

/-- The types that are one keyword, all but the first for tokens. -/
def keywordTypes : List String :=
  ["CDATA", "ID", "IDREF", "IDREFS", "ENTITY", "ENTITIES", "NMTOKEN", "NMTOKENS"]

/-- The type of an attribute: its keyword, empty for an enumeration, and the parts
behind it. -/
def attributeType? : List Mark → Option (String × List Mark)
  | .name "NOTATION" false :: .openParen :: rest =>
    (enumeration? true rest).map fun rest => ("", rest)
  | .name keyword false :: rest =>
    if keywordTypes.contains keyword then some (keyword, rest) else none
  | .openParen :: rest => (enumeration? false rest).map fun rest => ("", rest)
  | _ => none

/-- The default of an attribute, none where it has no value. -/
def attributeDefault? : List Mark → Option (Option (List Char) × List Mark)
  | .pound "IMPLIED" :: rest => some (none, rest)
  | .pound "REQUIRED" :: rest => some (none, rest)
  | .pound "FIXED" :: .literal text :: rest => some (some text, rest)
  | .literal text :: rest => some (some text, rest)
  | _ => none

namespace Doctype

/-- A rule taken in. One with a default, or for an identifier, counts only if it is
the first of its attribute. -/
def addRule (d : Doctype) (element : String) (rule : AttributeRule) (isId : Bool) : Doctype :=
  let rules := (d.attributes.get? element).getD []
  if (rule.preset.isSome || isId) && rules.any (·.name = rule.name) then d
  else { d with attributes := d.attributes.set element (rules ++ [rule]) }

/-- A default value as it is kept: its references replaced when it is declared. -/
def settlePreset? (d : Doctype) (tokens : Bool) :
    Option (List Char) → Option (Option (List Char))
  | none => some none
  | some raw => (d.expandValue? raw).map fun value => some (if tokens then squeeze value else value)

/-- The attributes of one declaration. -/
def addRules? (d : Doctype) (element : String) : Nat → List Mark → Option Doctype
  | _, [] => some d
  | 0, _ => none
  | fuel + 1, .name name _ :: parts => do
    let (type, parts) ← attributeType? parts
    let (preset, parts) ← attributeDefault? parts
    let tokens := type ≠ "CDATA"
    if d.reading then
      let value ← d.settlePreset? tokens preset
      (d.addRule element ⟨name, tokens, value⟩ (type = "ID" && preset.isNone)).addRules?
        element fuel parts
    else d.addRules? element fuel parts
  | _, _ => none

/-- An entity taken in, unless its name has one or every document knows it. -/
def addEntity (d : Doctype) (name : String) (entity : Entity) : Doctype :=
  if !d.reading || d.entities.has name || Reference.known.has name then d
  else { d with entities := d.entities.set name entity }

end Doctype

/-- The connector between the parts of a group, once one was seen. -/
abbrev Connector := Option Mark

/-- Whether the parts behind an opening parenthesis are a content model: groups of
names, each with one kind of connector. `expectsItem` tells whether an item or
what may follow one comes next. -/
def isModel : List Mark → List Connector → Bool → Bool
  | [], groups, _ => groups.isEmpty
  | .openParen :: rest, groups, true =>
    !groups.isEmpty && isModel rest (none :: groups) true
  | .name _ _ :: rest, groups, true => !groups.isEmpty && isModel rest groups false
  | .repeated :: rest, groups, true => !groups.isEmpty && isModel rest groups false
  | .closeParen _ :: rest, _ :: groups, false => isModel rest groups false
  | mark :: rest, connector :: groups, false =>
    (mark = .comma || mark = .bar) && (connector = none || connector = some mark) &&
      isModel rest (some mark :: groups) true
  | _, _, _ => false

/-- Whether parts are the alternatives of mixed content behind its first word. -/
def isMixed : List Mark → Bool
  | [.closeParen (some '*')] => true
  | .bar :: .name _ _ :: rest => isMixed rest
  | _ => false

/-- Whether parts describe the content of an element. -/
def isContent : List Mark → Bool
  | [.name word false] => word = "EMPTY" || word = "ANY"
  | [.openParen, .pound "PCDATA", .closeParen none] => true
  | .openParen :: .pound "PCDATA" :: rest => isMixed rest
  | .openParen :: rest => isModel rest [none] true
  | _ => false

/-- One declaration taken in. -/
def Doctype.declare? (d : Doctype) (keyword : String) (parts : List Mark) : Option Doctype :=
  match keyword, parts with
  | "ENTITY", .percent :: .name _ false :: parts =>
    (parameterOf? d.reading parts).map fun _ => d
  | "ENTITY", .name name false :: parts => (entityOf? d.reading parts).map (d.addEntity name)
  | "ATTLIST", .name element _ :: parts => d.addRules? element parts.length parts
  | "ELEMENT", .name _ _ :: parts => if isContent parts then some d else none
  | "NOTATION", .name _ false :: parts => if isNotation parts then some d else none
  | _, _ => none

/-- The declarations inside the document up to the closing bracket, and the rest. -/
def readSubset? : Nat → Doctype → List Char → Option (Doctype × List Char)
  | 0, _, _ => none
  | fuel + 1, d, cs =>
    match skipSpace cs with
    | ']' :: ']' :: '>' :: _ => none
    | ']' :: rest => some (d, rest)
    | '<' :: '!' :: '-' :: '-' :: rest => (skipComment? rest).bind (readSubset? fuel d)
    | '<' :: '?' :: rest => (skipInstruction? rest).bind (readSubset? fuel d)
    | '<' :: '!' :: rest =>
      let (keyword, rest) := rest.span fun c => isNameStart c
      if followedBy [] rest then do
        let (parts, rest) ← readMarks? (rest.length + 1) rest []
        let d ← d.declare? (String.ofList keyword) parts
        readSubset? fuel d rest
      else none
    | '%' :: rest =>
      match readName? rest with
      | some (_, ';' :: rest) =>
        readSubset? fuel { d with outside := true, reading := d.standalone } rest
      | _ => none
    | _ => none

/-- The end of a document type declaration. -/
def readEnd? (d : Doctype) (cs : List Char) : Option (Doctype × List Char) :=
  match skipSpace cs with
  | '>' :: rest => some (d, rest)
  | _ => none

/-- The parts of a declaration up to its closing mark or its bracket, which of the
two ended it, and the rest. -/
def readHead? : Nat → List Char → List Mark → Option (List Mark × Bool × List Char)
  | 0, _, _ => none
  | fuel + 1, cs, acc => do
    let (mark, rest) ← readMark? cs
    if mark = .close then some (acc.reverse, false, rest)
    else if mark = .openBracket then some (acc.reverse, true, rest)
    else readHead? fuel rest (mark :: acc)

/-- A document type declaration from behind its keyword, and the rest. -/
def readDoctype? (standalone : Bool) (cs : List Char) : Option (Doctype × List Char) := do
  let (parts, bracket, rest) ← readHead? (cs.length + 1) cs []
  let outside ← match parts with
    | [.name _ _] => some false
    | .name _ _ :: parts => if outsideId? parts = some [] then some true else none
    | _ => none
  let d : Doctype := { standalone := standalone, outside := outside }
  if bracket then
    let (d, rest) ← readSubset? (rest.length + 1) d rest
    readEnd? d rest
  else some (d, rest)

end Xml
end TrustFramework
