/-!
# The tokens of YAML

A YAML text is cut into tokens. Besides the marks that are written, there are tokens
for what the layout says: where a block collection begins and ends, and which piece of
a line is a key.

* `Defect` — why a text denotes nothing.
* `isBreak`, `endsWord` — the characters that end lines and words.
* `Token` — the tokens.
-/

namespace TrustFramework
namespace Yaml

/-- Why a text denotes nothing. -/
inductive Defect where
  /-- The text is not well formed, or it asks for a kind of node that is not known. -/
  | malformed
  /-- A number, a date or a character is spelled that does not exist. -/
  | outOfRange
  /-- A truth value is none of the known words. -/
  | unknownWord
  /-- A number has no digits at all. -/
  | noDigits
  /-- A date is not written like one. -/
  | noDate
  deriving DecidableEq, Repr

/-! ### Characters -/

/-- Whether a character ends a line. -/
def isBreak (c : Char) : Bool :=
  c = '\n' || c = '\r' || c.toNat = 0x85 || c.toNat = 0x2028 || c.toNat = 0x2029

/-- A line end as it counts in a scalar: only the two separators of Unicode are kept. -/
def settledBreak (c : Char) : Char :=
  if c.toNat = 0x2028 ∨ c.toNat = 0x2029 then c else '\n'

/-- Whether a text ends, or a line of it, at its first character. -/
def atLineEnd : List Char → Bool
  | [] => true
  | c :: _ => isBreak c

/-- Whether a character is a space or a tab. -/
def isSpaceOrTab (c : Char) : Bool := c = ' ' || c = '\t'

/-- Whether a text ends at its first character, or goes on with a space or a line end. -/
def atGap : List Char → Bool
  | [] => true
  | c :: _ => c = ' ' || isBreak c

/-- Whether a text ends at its first character, or goes on with a blank of any sort. -/
def atBlank : List Char → Bool
  | [] => true
  | c :: _ => isSpaceOrTab c || isBreak c

/-- Whether a character may stand in the name of an anchor, a handle or a directive. -/
def isNameChar (c : Char) : Bool := c.isAlphanum || c = '-' || c = '_'

/-- Whether a character may stand in a text at all. -/
def isPrintable (c : Char) : Bool :=
  let n := c.toNat
  n = 9 || n = 10 || n = 13 || (0x20 ≤ n && n ≤ 0x7e) || n = 0x85 ||
    (0xa0 ≤ n && n ≤ 0xd7ff) || (0xe000 ≤ n && n ≤ 0xfffd) || 0x10000 ≤ n

/-- Whether a line starts with a mark of three equal characters that stands alone. -/
def startsMark (c : Char) (cs : List Char) : Bool :=
  [c, c, c].isPrefixOf cs && atBlank (cs.drop 3)

/-- Whether a line starts with the mark of the beginning or the end of a document. -/
def startsDocumentMark (cs : List Char) : Bool := startsMark '-' cs || startsMark '.' cs

/-! ### Tokens -/

/-- A line that speaks about the document behind it. -/
inductive Directive where
  | version (major minor : Nat)
  | handle (name stands : String)
  | other
  deriving DecidableEq, Repr

/-- The tokens of a text. -/
inductive Token where
  /-- A block sequence begins here. -/
  | sequenceOpen
  /-- A block mapping begins here. -/
  | mappingOpen
  /-- The innermost block collection ends here. -/
  | blockClose
  | bracketOpen
  | bracketClose
  | braceOpen
  | braceClose
  | comma
  /-- An item of a sequence follows. -/
  | entry
  /-- A key follows. -/
  | key
  /-- The value of the last key follows. -/
  | value
  | alias (name : String)
  | anchor (name : String)
  /-- The kind of the node that follows; with a handle that stands for its first part. -/
  | tag (handle : Option String) (rest : String)
  /-- A scalar; a plain one stands there without any quotes. -/
  | scalar (text : String) (plain : Bool)
  | directive (d : Directive)
  | documentOpen
  | documentClose
  deriving DecidableEq, Repr

end Yaml
end TrustFramework
