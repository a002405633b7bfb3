/-!
# Blank characters and trimming

Twenty-nine characters count as blank: the ASCII blanks and separators, the two
Latin-1 blanks, and the space, line and paragraph separators of Unicode.

* `isBlank` — the class.
* `trimmed`, `trim` — a text without its leading and trailing blanks; inner
  blanks stay.
* `isBlankText` — whether nothing is left after trimming.
-/

namespace TrustFramework
namespace Text

/-- The code points of the blank characters beyond `U+0020`. -/
def wideBlanks : List Nat :=
  [0x85, 0xa0, 0x1680, 0x2000, 0x2001, 0x2002, 0x2003, 0x2004, 0x2005, 0x2006, 0x2007,
    0x2008, 0x2009, 0x200a, 0x2028, 0x2029, 0x202f, 0x205f, 0x3000]

/-- Blank characters: tab to carriage return, the four ASCII separators, the
space, and the wide blanks. -/
def isBlank (c : Char) : Bool :=
  let n := c.toNat
  (9 ≤ n && n ≤ 13) || (28 ≤ n && n ≤ 32) || (128 ≤ n && wideBlanks.contains n)

/-- The characters from the first to the last that is not blank. -/
def trimmed (cs : List Char) : List Char :=
  ((cs.dropWhile isBlank).reverse.dropWhile isBlank).reverse

/-- A text without the blanks at its two ends. -/
def trim (s : String) : String := String.ofList (trimmed s.toList)

/-- Whether a text holds nothing but blanks. -/
def isBlankText (s : String) : Bool := s.toList.all isBlank

end Text
end TrustFramework
