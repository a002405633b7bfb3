import TrustFramework.Number.Binary64

/-!
# The shortest decimal that reads back

A floating point number is written with the fewest decimal digits that no other
number of the format is nearer to. For one, two, up to seventeen digits, the two
decimals next to the number on the grid of that many digits are tried; the first
grid with a decimal inside the interval of the number wins, and of two the nearer
one.

* `Binary64.shortest` — the digits and the place of the decimal point.
* `Binary64.toText` — the written form.
-/

namespace TrustFramework
namespace Binary64

/-- An interval of fractions with a common denominator: the lower end, the number
itself, the upper end, and whether the ends belong to it. -/
structure Interval where
  low : Nat
  middle : Nat
  high : Nat
  denominator : Nat
  closed : Bool

/-- The positive numbers that round to `m · 2 ^ e`. Below a power of two the gap
to the next number is half as wide as above it. -/
def intervalOf (m : Nat) (e : Int) : Interval :=
  let below := if m = Nat.pow 2 52 ∧ minExponent < e then 1 else 2
  let up := if e - 2 < 0 then 1 else Nat.pow 2 (e - 2).toNat
  let down := if e - 2 < 0 then Nat.pow 2 (2 - e).toNat else 1
  { low := (4 * m - below) * up
    middle := 4 * m * up
    high := (4 * m + 2) * up
    denominator := down
    closed := m % 2 == 0 }

/-- Whether a fraction lies in an interval. -/
def Interval.holds (i : Interval) (n d : Nat) : Bool :=
  if i.closed then i.low * d ≤ n * i.denominator && n * i.denominator ≤ i.high * d
  else i.low * d < n * i.denominator && n * i.denominator < i.high * d

/-- The power of ten `10 ^ k` as a fraction. -/
def tenPower (k : Int) : Nat × Nat :=
  if k < 0 then (1, Nat.pow 10 (-k).toNat) else (Nat.pow 10 k.toNat, 1)

/-- The decimals `q · 10 ^ k` and `(q + 1) · 10 ^ k` around the middle of an
interval: the nearer one inside it, an exact tie to the even digit. -/
def Interval.onGrid? (i : Interval) (k : Int) : Option Nat :=
  let (p, d) := tenPower k
  let scaled := i.middle * d
  let step := p * i.denominator
  let q := scaled / step
  let inside (n : Nat) := i.holds (n * p) d
  let twice := 2 * (scaled % step)
  let upFirst := twice > step || (twice == step && q % 2 == 1)
  let first := if upFirst then q + 1 else q
  let second := if upFirst then q else q + 1
  if inside first then some first else if inside second then some second else none

/-- The least `k` with the middle of the interval below `10 ^ k`, searched from a
lower bound. -/
def Interval.pointFrom (i : Interval) : Nat → Int → Int
  | 0, k => k
  | fuel + 1, k =>
    let (p, d) := tenPower k
    if i.middle * d < p * i.denominator then k else i.pointFrom fuel (k + 1)

/-- The place of the decimal point: the middle of the interval is `0.d₁d₂… · 10 ^ k`
with `d₁` not zero. -/
def Interval.point (i : Interval) (m : Nat) (e : Int) : Int :=
  i.pointFrom 4 (((m.log2 : Int) + e) * 30103 / 100000)

/-- The first grid of `n`, `n + 1`, … digits that holds a decimal of the interval. -/
def Interval.search (i : Interval) (k : Int) : Nat → Nat → Nat × Int
  | 0, n => (i.middle / i.denominator, n)
  | fuel + 1, n =>
    match i.onGrid? (k - n) with
    | some q => (q, k - n)
    | none => i.search k fuel (n + 1)

/-- The digits of a number without the zeros at its end, and how many there were. -/
def stripZeros : List Char → List Char × Nat
  | '0' :: rest => ((stripZeros rest).1, (stripZeros rest).2 + 1)
  | cs => (cs, 0)

/-- The shortest digits of `m · 2 ^ e`, and where the decimal point stands: `k`
places to the right of the first digit's left side. -/
def shortest (m : Nat) (e : Int) : List Char × Int :=
  let i := intervalOf m e
  let (q, place) := i.search (i.point m e) 17 1
  let digits := Nat.toDigits 10 q
  let (back, _) := stripZeros digits.reverse
  (back.reverse, digits.length + place)

/-- The exponent of a written number: a sign and at least two digits. -/
def exponentText (e : Int) : String :=
  let digits := toString e.natAbs
  (if e < 0 then "-" else "+") ++ (if digits.length < 2 then "0" ++ digits else digits)

/-- Digits with the decimal point after the first `k`: positional from `10 ^ -4` up
to `10 ^ 16`, with an exponent beyond. -/
def layOut (digits : List Char) (k : Int) : String :=
  if k ≤ -4 ∨ 16 < k then
    let head := digits.take 1
    let tail := digits.drop 1
    String.ofList (if tail.isEmpty then head else head ++ '.' :: tail) ++ "e" ++
      exponentText (k - 1)
  else if k ≤ 0 then
    "0." ++ String.ofList (List.replicate (-k).toNat '0' ++ digits)
  else
    let whole := digits.take k.toNat
    let fraction := digits.drop k.toNat
    String.ofList (whole ++ List.replicate (k.toNat - whole.length) '0') ++ "." ++
      (if fraction.isEmpty then "0" else String.ofList fraction)

/-- The written form of a number: the shortest digits that read back; whole
numbers end in `.0`. -/
def toText : Binary64 → String
  | finite negative m e =>
    let body := if m = 0 then "0.0" else
      let (digits, k) := shortest m e
      layOut digits k
    if negative then "-" ++ body else body
  | infinite negative => if negative then "-inf" else "inf"
  | nan => "nan"

end Binary64
end TrustFramework
