import TrustFramework.Fields
import TrustFramework.Number.Shortest
import TrustFramework.Text.Digit
import TrustFramework.Text.Quoted

/-!
# Values

Policy trees, telemetry and settings are all made of one kind of value: nothing,
a truth value, a whole number, a floating point number, a text, a list, or an
object with named fields in order.

* `Value` — the type.
* `Value.same` — equality by content: the order of fields does not count, and
  numbers and truth values agree when their numbers do.
* `Value.literal`, `Value.shown` — a value as the literal that denotes it, and as
  text, where a text stands for itself.
* `Value.isHollow` — the values that say nothing: null, false, zero and whatever
  is empty.
-/

namespace TrustFramework

/-- A value of a document: the common shape of trees, telemetry and settings. -/
inductive Value where
  | null
  | bool (b : Bool)
  | int (n : Int)
  | real (x : Binary64)
  | text (s : String)
  | list (items : List Value)
  | object (fields : List (String × Value))
  deriving Inhabited, Repr

namespace Value

/-! ### Views -/

/-- The text, if the value is one. -/
def text? : Value → Option String
  | text s => some s
  | _ => none

/-- The fields, if the value is an object. -/
def fields? : Value → Option (Fields Value)
  | object fields => some fields
  | _ => none

/-- The items, if the value is a list. -/
def items? : Value → Option (List Value)
  | list items => some items
  | _ => none

/-- The value of a field of an object. -/
def get? : Value → String → Option Value
  | object fields, name => Fields.get? fields name
  | _, _ => none

/-- The value of a field, nothing for an absent one. -/
def get (v : Value) (name : String) : Value := (v.get? name).getD null

/-- Whether a value is nothing. -/
def isNull : Value → Bool
  | null => true
  | _ => false

/-- Whether a value is an object. -/
def isObject : Value → Bool
  | object _ => true
  | _ => false

/-- Whether a value is a list. -/
def isList : Value → Bool
  | list _ => true
  | _ => false

/-- Whether a value says nothing: null, false, zero, or empty. -/
def isHollow : Value → Bool
  | null => true
  | bool b => !b
  | int n => n == 0
  | real x => x.isZero
  | text s => s.isEmpty
  | list items => items.isEmpty
  | object fields => fields.isEmpty

/-- A value unless it is hollow. -/
def solid? (v : Value) : Option Value := if v.isHollow then none else some v

/-- A value with a substitute for a hollow one. -/
def orElse (v w : Value) : Value := if v.isHollow then w else v

/-- An optional text as a value. -/
def ofText? : Option String → Value
  | some s => text s
  | none => null

/-! ### Equality by content -/

/-- The whole number a truth value or a whole number stands for. -/
def whole? : Value → Option Int
  | bool b => some (if b then 1 else 0)
  | int n => some n
  | _ => none

/-- Whether two values without parts agree: numbers and truth values by the
number they stand for, texts letter for letter. -/
def sameAtom : Value → Value → Bool
  | null, null => true
  | text s, text t => s == t
  | real x, real y => x.same y
  | real x, v => v.whole?.any fun k => x.compareInt? k == some .eq
  | v, real x => v.whole?.any fun k => x.compareInt? k == some .eq
  | v, w => v.whole?.any fun k => w.whole? == some k

mutual
/-- Equality by content. The order of an object's fields does not count. -/
def same : Value → Value → Bool
  | list as, list bs => sameItems as bs
  | object fs, object gs => fs.length == gs.length && sameFields fs gs
  | list _, _ => false
  | object _, _ => false
  | v, w => sameAtom v w

/-- Whether two lists agree item by item. -/
def sameItems : List Value → List Value → Bool
  | [], [] => true
  | a :: as, b :: bs => same a b && sameItems as bs
  | _, _ => false

/-- Whether every field of the first object is in the second with the same value. -/
def sameFields : List (String × Value) → List (String × Value) → Bool
  | [], _ => true
  | (n, v) :: fs, gs => ((Fields.get? gs n).any fun w => same v w) && sameFields fs gs
end

instance : BEq Value := ⟨same⟩

/-! ### Literals -/

/-- Texts joined by a comma and a space. -/
def commaJoined (parts : List String) : String := ", ".intercalate parts

mutual
/-- The literal that denotes a value: `None`, `True`, `1.0`, `'text'`, `[1, 2]`,
`\x7b'name': 1\x7d` with the braces written out. -/
def literal : Value → String
  | null => "None"
  | bool b => if b then "True" else "False"
  | int n => toString n
  | real x => x.toText
  | text s => Text.quoted s
  | list items => "[" ++ commaJoined (itemLiterals items) ++ "]"
  | object fields => "\x7b" ++ commaJoined (fieldLiterals fields) ++ "\x7d"

/-- The literals of the items of a list. -/
def itemLiterals : List Value → List String
  | [] => []
  | v :: rest => literal v :: itemLiterals rest

/-- The fields of an object, each as its quoted name, a colon and its literal. -/
def fieldLiterals : List (String × Value) → List String
  | [] => []
  | (n, v) :: rest => (Text.quoted n ++ ": " ++ literal v) :: fieldLiterals rest
end

/-- A value as text: a text is itself, anything else its literal. -/
def shown : Value → String
  | text s => s
  | v => literal v

/-- A value as text, nothing as the empty text. -/
def shownOrEmpty : Value → String
  | null => ""
  | v => shown v

@[simp] theorem shown_text (s : String) : shown (text s) = s := rfl

@[simp] theorem isHollow_text (s : String) : isHollow (text s) = s.isEmpty := rfl

end Value
end TrustFramework
