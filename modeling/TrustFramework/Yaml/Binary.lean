import TrustFramework.Yaml.Token
import TrustFramework.Text.Quoted

/-!
# Bytes in YAML

Bytes are written in base 64: four characters of sixty-four stand for three bytes, and
the last ones are filled up with equals signs. Other characters do not count.

* `readBase64` — the bytes a text spells.
* `bytesLiteral` — bytes as a literal.
-/

namespace TrustFramework
namespace Yaml

/-- The digits of base 64. -/
def base64Value? (c : Char) : Option Nat :=
  if c.isUpper then some (c.toNat - 0x41)
  else if c.isLower then some (c.toNat - 0x61 + 26)
  else if c.isDigit then some (c.toNat - 0x30 + 52)
  else if c = '+' then some 62
  else if c = '/' then some 63
  else none

/-- The bytes from the digits of one group on. The digits of the group that were read
are `count`, together they are worth `worth`, and `fills` equals signs stand behind
them. -/
def readBase64From (count worth fills : Nat) : List Char → Except Defect (List Nat)
  | [] => if count = 0 then .ok [] else .error .malformed
  | c :: rest =>
    if c = '=' then
      if 2 ≤ count ∧ 4 ≤ count + fills + 1 then
        .ok (if count = 2 then [worth / 16] else [worth / 1024, worth / 4 % 256])
      else readBase64From count worth (if 2 ≤ count then fills + 1 else fills) rest
    else match base64Value? c with
      | none => readBase64From count worth fills rest
      | some d =>
        let worth := worth * 64 + d
        if count = 3 then do
          let bytes ← readBase64From 0 0 0 rest
          pure (worth / 65536 :: worth / 256 % 256 :: worth % 256 :: bytes)
        else readBase64From (count + 1) worth 0 rest

/-- The bytes a text in base 64 spells. -/
def readBase64 (s : String) : Except Defect (List Nat) :=
  if s.toList.all (·.toNat < 128) then readBase64From 0 0 0 s.toList else .error .malformed

/-- One byte of a literal, given the quote in use. -/
def byteChars (quote : Char) (b : Nat) : List Char :=
  let c := Char.ofNat b
  if 0x20 ≤ b ∧ b < 0x7f ∨ c = '\n' ∨ c = '\t' ∨ c = '\r' then Text.quotedChar quote c
  else '\\' :: 'x' :: Text.hex 2 b []

/-- Bytes as a literal. -/
def bytesLiteral (bytes : List Nat) : String :=
  let quote := Text.quoteFor (bytes.map Char.ofNat)
  String.ofList ('b' :: quote :: (bytes.flatMap (byteChars quote) ++ [quote]))

end Yaml
end TrustFramework
