/-!
# Binary floating point numbers of 64 bits

A finite number is kept as the exact number it denotes: a sign, a natural
mantissa below `2 ^ 53` and an exponent of two. Everything is computed in whole
numbers, with one rounding rule: to the nearest representable number, a tie to
the even mantissa.

* `Binary64.ofRatio` — the number nearest to a fraction.
* `Binary64.ofDecimal` — the number nearest to a written decimal.
* `Binary64.toRatio?` — the exact fraction a finite number denotes.
* `Binary64.times`, `Binary64.plus` — a product with a whole number and a sum, rounded.
* `Binary64.roundEven?` — the nearest whole number, a half to the even one.
* `Binary64.compareInt?`, `Binary64.same` — comparison by value.
-/

namespace TrustFramework

/-- A binary floating point number: `± mantissa · 2 ^ exponent`, an infinity, or
the value that is no number. -/
inductive Binary64 where
  | finite (negative : Bool) (mantissa : Nat) (exponent : Int)
  | infinite (negative : Bool)
  | nan
  deriving DecidableEq, Repr, Inhabited

namespace Binary64

/-! ### Rounding -/

/-- The whole number nearest to `n / d`, a half to the even one. -/
def roundHalfEven (n d : Nat) : Nat :=
  let q := n / d
  let twice := 2 * (n % d)
  if twice > d ∨ (twice = d ∧ q % 2 = 1) then q + 1 else q

/-- `n / d` divided by `2 ^ e`, as a fraction of natural numbers. -/
def scaleDown (n d : Nat) (e : Int) : Nat × Nat :=
  if e < 0 then (n * Nat.pow 2 (-e).toNat, d) else (n, d * Nat.pow 2 e.toNat)

/-- The least exponent of two a finite number may have. -/
def minExponent : Int := -1074

/-- The greatest exponent of two a finite number may have. -/
def maxExponent : Int := 971

/-- The signed zeros. -/
def zero (negative : Bool) : Binary64 := finite negative 0 minExponent

/-- The exponent that gives the mantissa of `n / d` fifty-three bits, or the
least exponent when the fraction is too small for that. -/
def exponentFor (n d : Nat) : Int :=
  let guess : Int := (n.log2 : Int) - (d.log2 : Int) - 53
  let (p, q) := scaleDown n d guess
  max minExponent (if p < q * Nat.pow 2 53 then guess else guess + 1)

/-- The number nearest to `n / d`, with the given sign. -/
def ofRatio (negative : Bool) (n d : Nat) : Binary64 :=
  if n = 0 then zero negative
  else
    let e := exponentFor n d
    let (p, q) := scaleDown n d e
    let m := roundHalfEven p q
    let (m, e) := if m = Nat.pow 2 53 then (Nat.pow 2 52, e + 1) else (m, e)
    if maxExponent < e then infinite negative else finite negative m e

/-- How many decimal digits a natural number has. -/
def decimalLength (n : Nat) : Nat := (Nat.toDigits 10 n).length

/-- The number nearest to `± n · 10 ^ e`. Decimals beyond the range of the format
are settled by their magnitude alone. -/
def ofDecimal (negative : Bool) (n : Nat) (e : Int) : Binary64 :=
  if n = 0 then zero negative
  else
    let magnitude : Int := decimalLength n + e
    if magnitude > 310 then infinite negative
    else if magnitude < -330 then zero negative
    else if e < 0 then ofRatio negative n (Nat.pow 10 (-e).toNat)
    else ofRatio negative (n * Nat.pow 10 e.toNat) 1

/-- The number nearest to a signed fraction. -/
def ofIntRatio (n : Int) (d : Nat) : Binary64 := ofRatio (n < 0) n.natAbs d

/-! ### Reading a number exactly -/

/-- The exact fraction a finite number denotes. -/
def toRatio? : Binary64 → Option (Int × Nat)
  | finite negative m e =>
    let n : Nat := if e < 0 then m else m * Nat.pow 2 e.toNat
    let d : Nat := if e < 0 then Nat.pow 2 (-e).toNat else 1
    some (if negative then -(n : Int) else n, d)
  | infinite _ => none
  | nan => none

/-- The product of a number and a natural number, rounded. -/
def times (x : Binary64) (k : Nat) : Binary64 :=
  match x.toRatio? with
  | some (n, d) => ofIntRatio (n * k) d
  | none => x

/-- The sum of two numbers, rounded. What is not finite stays as it is. -/
def plus (x y : Binary64) : Binary64 :=
  match x.toRatio?, y.toRatio? with
  | some (n, d), some (m, e) => ofIntRatio (n * e + m * d) (d * e)
  | none, _ => x
  | _, none => y

/-- The whole number nearest to a finite number, a half to the even one. -/
def roundEven? (x : Binary64) : Option Int :=
  x.toRatio?.map fun (n, d) =>
    let m : Int := roundHalfEven n.natAbs d
    if n < 0 then -m else m

/-- The whole number a number equals, if it is whole. -/
def toInt? (x : Binary64) : Option Int :=
  match x.toRatio? with
  | some (n, d) => if n % d = 0 then some (n / d) else none
  | none => none

/-- Whether a number is zero, of either sign. -/
def isZero : Binary64 → Bool
  | finite _ m _ => m == 0
  | _ => false

/-- How a number compares with a whole number; nothing compares with the value
that is no number. -/
def compareInt? (x : Binary64) (k : Int) : Option Ordering :=
  match x with
  | nan => none
  | infinite negative => some (if negative then .lt else .gt)
  | finite .. => x.toRatio?.map fun (n, d) => compare n (k * d)

/-- Equality by value: the two zeros agree, and the value that is no number
differs from everything. -/
def same : Binary64 → Binary64 → Bool
  | infinite a, infinite b => a == b
  | finite a m e, finite b n f =>
    (finite a m e).toRatio?.any fun (p, q) =>
      (finite b n f).toRatio?.any fun (r, s) => p * s == r * q
  | _, _ => false

end Binary64
end TrustFramework
