import TrustFramework.Text.Printable

/-!
# Quoted texts

A text shown inside a message or inside the literal of a larger value stands
between single quotes, or between double quotes when it holds a single quote and
no double one. The quote in use, the backslash, the three common controls and
every unprintable character are escaped.

* `hex` — hexadecimal digits in lower case, padded to a width.
* `quoted` — the quoted form of a text.
-/

namespace TrustFramework
namespace Text

/-- A hexadecimal digit in lower case. -/
def hexDigit (n : Nat) : Char :=
  if n < 10 then Char.ofNat (0x30 + n) else Char.ofNat (0x57 + n)

/-- The last `width` hexadecimal digits of a number, on the front of `rest`. -/
def hex : Nat → Nat → List Char → List Char
  | 0, _, rest => rest
  | width + 1, n, rest => hex width (n / 16) (hexDigit (n % 16) :: rest)

/-- The escape of an unprintable character: two, four or eight digits, as few as
hold its code point. -/
def codeEscape (c : Char) : List Char :=
  let n := c.toNat
  if n ≤ 0xff then '\\' :: 'x' :: hex 2 n []
  else if n ≤ 0xffff then '\\' :: 'u' :: hex 4 n []
  else '\\' :: 'U' :: hex 8 n []

/-- One character of a quoted text, given the quote in use. -/
def quotedChar (quote c : Char) : List Char :=
  if c = quote ∨ c = '\\' then ['\\', c]
  else if c = '\n' then ['\\', 'n']
  else if c = '\t' then ['\\', 't']
  else if c = '\r' then ['\\', 'r']
  else if isPrintable c then [c]
  else codeEscape c

/-- The quote a text is shown between. -/
def quoteFor (cs : List Char) : Char :=
  if cs.contains '\'' && !cs.contains '"' then '"' else '\''

/-- The quoted form of a text. -/
def quoted (s : String) : String :=
  let cs := s.toList
  let quote := quoteFor cs
  String.ofList (quote :: (cs.flatMap (quotedChar quote) ++ [quote]))

end Text
end TrustFramework
