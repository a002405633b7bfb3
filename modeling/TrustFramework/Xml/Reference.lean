import TrustFramework.Fields
import TrustFramework.Xml.Character

/-!
# References and entities

A reference stands between an ampersand and a semicolon: a code point in decimal
or hexadecimal digits, one of the five names every document knows, or the name of
an entity that the document declares.

* `Reference.ofBody?` — what stands between the two marks.
* `Entity` — what a declared name may stand for.
* `entityText?` — the replacement text of an entity, from the text between its
  quotes: code points are put in, names are left to be read later.
-/

namespace TrustFramework
namespace Xml

/-- What a reference refers to. -/
inductive Reference where
  | character (c : Char)
  | entity (name : String)
  deriving DecidableEq, Repr

/-- The value of a digit in base sixteen. -/
def hexDigit? (c : Char) : Option Nat :=
  let n := c.toNat
  if 0x30 ≤ n ∧ n ≤ 0x39 then some (n - 0x30)
  else if 0x61 ≤ n ∧ n ≤ 0x66 then some (n - 0x57)
  else if 0x41 ≤ n ∧ n ≤ 0x46 then some (n - 0x37)
  else none

/-- The value of a digit in base ten. -/
def decimalDigit? (c : Char) : Option Nat :=
  if c.isDigit then some (c.toNat - 0x30) else none

/-- The number that digits spell in a base, none if one of them is no digit. -/
def number? (base : Nat) (digit? : Char → Option Nat) (cs : List Char) : Option Nat :=
  cs.foldl (fun acc c => do pure ((← acc) * base + (← digit? c))) (some 0)

/-- The character with a code point, if a document may hold it. -/
def characterOf? (n : Nat) : Option Char :=
  if n < 0x110000 ∧ ¬ (0xd800 ≤ n ∧ n ≤ 0xdfff) then
    let c := Char.ofNat n
    if isChar c then some c else none
  else none

namespace Reference

/-- The characters that every document has a name for. -/
def known : Fields Char :=
  [("lt", '<'), ("gt", '>'), ("amp", '&'), ("apos", '\''), ("quot", '"')]

/-- The reference between an ampersand and a semicolon. -/
def ofBody? : List Char → Option Reference
  | '#' :: 'x' :: digits =>
    if digits.isEmpty then none
    else ((number? 16 hexDigit? digits).bind characterOf?).map character
  | '#' :: digits =>
    if digits.isEmpty then none
    else ((number? 10 decimalDigit? digits).bind characterOf?).map character
  | body =>
    match readName? body with
    | some (name, []) =>
      let name := String.ofList name
      some (match known.get? name with
        | some c => character c
        | none => entity name)
    | _ => none

end Reference

/-- What a declared name stands for: text, or something outside the document that
is either parsed or not. -/
inductive Entity where
  | internal (text : List Char)
  | external
  | unparsed
  deriving Repr

/-- One reference of an entity's value: a code point is put in, a name is kept as
it is written. -/
def keepName? (body : List Char) : Option (List Char) :=
  match body with
  | '#' :: _ => (Reference.ofBody? body).bind fun
    | .character c => some [c]
    | .entity _ => none
  | _ => (Reference.ofBody? body).map fun _ => '&' :: (body ++ [';'])

/-- The replacement text of an entity. The second argument holds, reversed, what was read of a
reference; a percent sign would refer to a parameter and is refused. -/
def entityText? : List Char → Option (List Char) → Option (List Char)
  | [], none => some []
  | [], some _ => none
  | ';' :: rest, some body => do
    let kept ← keepName? body.reverse
    let tail ← entityText? rest none
    pure (kept ++ tail)
  | c :: rest, some body => entityText? rest (some (c :: body))
  | '&' :: rest, none => entityText? rest (some [])
  | '%' :: _, none => none
  | c :: rest, none => (entityText? rest none).map (c :: ·)

end Xml
end TrustFramework
