/-!
# Binary numbers of 64 bits

A `Binary64` is a number that fits into 64 bits : with a sign, an integer below 2^53 times a
power of two from 2^-1074 to 2^971, an infinity, or no number at all. `ofRat` gives the
number nearest to a fraction, of two equally near ones that with the even significand.
`toNatClamped` rounds to an integer, a half away from zero.
-/

namespace Rulebook

/-- A number `± significand * 2 ^ exponent`, or none. -/
inductive Binary64 where
  | nan
  | infinity (negative : Bool)
  | finite (negative : Bool) (significand : Nat) (exponent : Int)
  deriving DecidableEq, Repr

namespace Binary64

/-- The number of bits of a significand. -/
def precision : Nat := 53

/-- The least exponent, at which a significand may have fewer bits. -/
def minExponent : Int := -1074

/-- The greatest exponent. -/
def maxExponent : Int := 971

/-- A power of two. -/
def twoPow (q : Int) : Rat := (2 : Rat) ^ q

/-- The fraction `m * 2 ^ q`. -/
def scaled (m : Nat) (q : Int) : Rat := mkRat m 1 * twoPow q

/-- The integer nearest to a fraction that is not negative; a half goes to the even neighbour. -/
def roundEven (x : Rat) : Nat :=
  let below := x.floor.toNat
  let rest := x - mkRat below 1
  if rest < 1 / 2 then below
  else if 1 / 2 < rest then below + 1
  else below + below % 2

/-- The largest `e` with `2 ^ e` not above a positive fraction. -/
def log2 (x : Rat) : Int :=
  let e := (x.num.natAbs.log2 : Int) - (x.den.log2 : Int)
  if twoPow e ≤ x then e else e - 1

/-- The number nearest to a fraction that is not negative, with a sign. -/
def ofRat (negative : Bool) (x : Rat) : Binary64 :=
  if x = 0 then finite negative 0 minExponent
  else
    let e := log2 x - (precision - 1 : Nat)
    let q := if e < minExponent then minExponent else e
    let m := roundEven (x * twoPow (-q))
    let (m, q) := if m.log2 < precision then (m, q) else (m / 2, q + 1)
    if maxExponent < q then infinity negative else finite negative m q

/-- How far the decimal exponents of numbers can be from zero. -/
def decimalLimit : Int := 400

/-- The number nearest to `digits * 10 ^ exponent`, where `digits` is written with `count`
digits. -/
def ofDecimal (negative : Bool) (digits count : Nat) (exponent : Int) : Binary64 :=
  if digits = 0 ∨ exponent + count < -decimalLimit then finite negative 0 minExponent
  else if decimalLimit < exponent then infinity negative
  else ofRat negative (mkRat digits 1 * (10 : Rat) ^ exponent)

example : ofDecimal false 1 1 (-1) = finite false 7205759403792794 (-56) := by decide +kernel

/-- Whether the number is zero; what is no number is not. -/
def isZero : Binary64 → Bool
  | finite _ 0 _ => true
  | _ => false

/-- The nearest integer from zero to `limit`; a half goes away from zero, and what is no number
to zero. -/
def toNatClamped (limit : Nat) : Binary64 → Nat
  | finite false m q => Nat.min limit (scaled m q + 1 / 2).floor.toNat
  | infinity false => limit
  | _ => 0

end Binary64

end Rulebook
