import TrustFramework.Text.Blank

/-!
# Decimal digits and whole numbers in text

A decimal digit of any script counts. The scripts number their digits in runs of
ten consecutive code points, so a table of the zeros describes them all.

* `digit?` — the value of a decimal digit.
* `readInt?` — a whole number: blanks around it, one sign, digits of any script,
  and single underscores between digits. Nothing else is a number.
-/

namespace TrustFramework
namespace Text

/-- The code points of the digits zero, one for each run of decimal digits. -/
def zeros : List Nat :=
  [0x30, 0x660, 0x6f0, 0x7c0, 0x966, 0x9e6, 0xa66, 0xae6, 0xb66, 0xbe6, 0xc66, 0xce6,
    0xd66, 0xde6, 0xe50, 0xed0, 0xf20, 0x1040, 0x1090, 0x17e0, 0x1810, 0x1946, 0x19d0,
    0x1a80, 0x1a90, 0x1b50, 0x1bb0, 0x1c40, 0x1c50, 0xa620, 0xa8d0, 0xa900, 0xa9d0,
    0xa9f0, 0xaa50, 0xabf0, 0xff10, 0x104a0, 0x10d30, 0x11066, 0x110f0, 0x11136, 0x111d0,
    0x112f0, 0x11450, 0x114d0, 0x11650, 0x116c0, 0x11730, 0x118e0, 0x11950, 0x11c50,
    0x11d50, 0x11da0, 0x16a60, 0x16ac0, 0x16b50, 0x1d7ce, 0x1d7d8, 0x1d7e2, 0x1d7ec,
    0x1d7f6, 0x1e140, 0x1e2f0, 0x1e950, 0x1fbf0]

/-- The value of a decimal digit. -/
def digit? (c : Char) : Option Nat :=
  let n := c.toNat
  if n < 0x660 then
    if 0x30 ≤ n ∧ n ≤ 0x39 then some (n - 0x30) else none
  else (zeros.find? fun z => z ≤ n && n < z + 10).map (n - ·)

/-- Whether a character is a decimal digit. -/
def isDigit (c : Char) : Bool := (digit? c).isSome

/-- The blanks a written number may stand among: of the ASCII ones only tab to
carriage return and the space. -/
def isNumberBlank (c : Char) : Bool :=
  isBlank c && !(28 ≤ c.toNat && c.toNat ≤ 31)

/-- Digits with single underscores between them, read from the left onto `acc`;
`owed` says that a digit must come next. -/
def readDigits : List Char → Nat → Bool → Option Nat
  | [], acc, owed => if owed then none else some acc
  | '_' :: rest, acc, owed => if owed then none else readDigits rest acc true
  | c :: rest, acc, _ =>
    match digit? c with
    | some d => readDigits rest (acc * 10 + d) false
    | none => none

/-- The most digits a written number may have. -/
def maxDigits : Nat := 4300

/-- A whole number with an optional sign, once the blanks around it are gone. -/
def readSigned (cs : List Char) : Option Int :=
  match cs with
  | '-' :: rest => (readDigits rest 0 true).map fun n => -(n : Int)
  | '+' :: rest => (readDigits rest 0 true).map Int.ofNat
  | _ => (readDigits cs 0 true).map Int.ofNat

/-- The whole number a text spells, if it spells one. -/
def readInt? (s : String) : Option Int :=
  let cs := ((s.toList.dropWhile isNumberBlank).reverse.dropWhile isNumberBlank).reverse
  if cs.countP isDigit ≤ maxDigits then readSigned cs else none

/-- The value of a run of decimal digits of any script. -/
def digitsValue (cs : List Char) : Nat :=
  cs.foldl (fun acc c => acc * 10 + (digit? c).getD 0) 0

end Text
end TrustFramework
