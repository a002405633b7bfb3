import TrustFramework.Text.Digit

/-!
# The words of a command line

A word of a command line names an option or is an argument. A long option may be cut
short as long as only one has that beginning, and its value can be part of the word,
behind an equals sign. Nothing behind two hyphens that stand alone is an option.

* `Grammar` — the options of a command.
* `Word` — what a word is; `Grammar.words` — the words of a command line.
* `Taken` — what was taken from words; `Taken.step` — from one word more.
-/

namespace TrustFramework
namespace Command

/-- Why a command line is no invocation. -/
inductive Stop where
  /-- It cannot be understood. -/
  | usage
  /-- It asks for help. -/
  | help
  deriving DecidableEq, Repr

/-- An option that takes a value. -/
structure OptionRule where
  name : String
  /-- The values it may have; any if there are none. -/
  choices : List String := []

/-- The options of a command, and whether it takes more than one argument. -/
structure Grammar where
  options : List OptionRule
  several : Bool := false

/-- What a word of a command line is. -/
inductive Word where
  | argument (s : String)
  /-- Two hyphens that stand alone. -/
  | separator
  /-- An option, with its value if the word holds it. -/
  | option (name : String) (value : Option String)
  /-- The option that asks for help, and whether the word gives it no value. -/
  | help (bare : Bool)
  /-- An option nobody knows. -/
  | unknown
  deriving DecidableEq, Repr

/-- The option that asks for help, cut short and in full. -/
def helpNames : List String := ["-h", "--help"]

namespace Grammar

/-- The names of all options. -/
def names (g : Grammar) : List String := helpNames ++ g.options.map OptionRule.name

/-- An option with a certain name. -/
def optionNamed (name : String) (value : Option String) : Word :=
  if helpNames.contains name then .help value.isNone else .option name value

/-- A word in front of its first equals sign, and what is behind it. -/
def splitValue (s : String) : String × Option String :=
  match s.toList.span (· ≠ '=') with
  | (front, _ :: value) => (String.ofList front, some (String.ofList value))
  | (_, []) => (s, none)

/-- Whether a word is a number below zero. -/
def isNegativeNumber (s : String) : Bool :=
  match s.toList with
  | '-' :: rest =>
    let digits := rest.dropWhile Text.isDigit
    (!rest.isEmpty && digits.isEmpty) ||
      (digits.head? = some '.' && 1 < digits.length && (digits.drop 1).all Text.isDigit)
  | _ => false

/-- The option that a word behind a hyphen names, in part perhaps. -/
def optionOf (g : Grammar) (s : String) : Except Stop (Option Word) :=
  let (front, value) := splitValue s
  if g.names.contains s then .ok (some (optionNamed s none))
  else if g.names.contains front then .ok (some (optionNamed front value))
  else if "--".toList.isPrefixOf s.toList then
    match g.names.filter fun name => front.toList.isPrefixOf name.toList with
    | [] => .ok none
    | [name] => .ok (some (optionNamed name value))
    | _ => .error .usage
  else if "-h".toList.isPrefixOf s.toList then
    .ok (some (.help (((s.toList.drop 1).dropWhile (· = 'h')).head? ≠ some '-')))
  else .ok none

/-- What a word is that stands before any separator. -/
def word (g : Grammar) (s : String) : Except Stop Word := do
  if s.toList.head? ≠ some '-' || s = "-" then return .argument s
  match ← g.optionOf s with
  | some w => pure w
  | none => pure (if isNegativeNumber s || s.toList.contains ' ' then .argument s else .unknown)

/-- The words of a command line. -/
def words (g : Grammar) : List String → Except Stop (List Word)
  | [] => .ok []
  | s :: rest =>
    if s = "--" then .ok (.separator :: rest.map .argument)
    else do
      let w ← g.word s
      let rest ← g.words rest
      pure (w :: rest)

/-- Whether an option may have a value. -/
def allows (g : Grammar) (name value : String) : Bool :=
  g.options.any fun rule =>
    rule.name = name && (rule.choices.isEmpty || rule.choices.contains value)

end Grammar

/-- What was taken from words. -/
structure Taken where
  /-- The values of options, the last one first. -/
  values : List (String × String) := []
  arguments : List String := []
  /-- The option whose value comes next. -/
  awaited : Option String := none
  /-- Whether the last word was an argument or a separator that counted. -/
  collecting : Bool := false
  /-- Whether a word could not be used. -/
  excess : Bool := false

namespace Taken

/-- The value of an option taken, if it may have it. -/
def withValue (t : Taken) (g : Grammar) (name value : String) : Except Stop Taken :=
  if g.allows name value then
    .ok { t with values := (name, value) :: t.values, awaited := none, collecting := false }
  else .error .usage

/-- One word more. Arguments stand in one place, and a command that takes one has no use
for others. -/
def step (g : Grammar) (t : Taken) (w : Word) : Except Stop Taken :=
  match t.awaited, w with
  | some name, .argument s => t.withValue g name s
  | some _, _ => .error .usage
  | none, .option name (some value) => t.withValue g name value
  | none, .option name none => .ok { t with awaited := some name, collecting := false }
  | none, .help bare => .error (if bare then .help else .usage)
  | none, .unknown => .ok { t with excess := true, collecting := false }
  | none, .argument s =>
    if t.arguments.isEmpty || (t.collecting && g.several) then
      .ok { t with arguments := t.arguments ++ [s], collecting := true }
    else .ok { t with excess := true }
  | none, .separator =>
    if t.arguments.isEmpty || t.collecting then .ok t else .ok { t with excess := true }

/-- The value of an option; the last one counts. -/
def value? (t : Taken) (name : String) : Option String := t.values.lookup name

/-- The value of an option, or nothing. -/
def valueOrEmpty (t : Taken) (name : String) : String := (t.value? name).getD ""

end Taken
end Command
end TrustFramework
