/-! Binary floating point in 64 bits, kept as exact integers, and rounding to it. -/

namespace StaticSite.Number

/-- The finite doubles, sign apart, in increasing order: number `i` below `2 ^ 52` is `i` units of
`2 ^ -1074`, and every block of `2 ^ 52` after it doubles the unit from the second block on. -/
def Double.limit : Nat := 0x7FF0000000000000

def Double.block : Nat := 0x10000000000000

structure Double where
  negative : Bool
  place : Nat
  finite : place < Double.limit
  deriving DecidableEq

namespace Double

def significand (x : Double) : Nat :=
  if x.place < block then x.place else block + x.place % block

def unit (x : Double) : Nat :=
  x.place / block - 1

def isZero (x : Double) : Bool := x.place = 0

def fraction (x : Double) : Nat × Nat :=
  (x.significand * Nat.pow 2 (x.unit - 1074), Nat.pow 2 (1074 - x.unit))

end Double

def roundEven (num den : Nat) : Nat :=
  let q := num / den
  let r := num % den
  if 2 * r < den then q
  else if 2 * r = den then q + q % 2
  else q + 1

/-- The exponent of the greatest power of two that is not above `num / den`, plus `1074`, less the
`52` bits of the fraction; never below the smallest unit. -/
def unitOf (num den : Nat) : Nat :=
  let k : Int := (num.log2 : Int) - den.log2
  let above := if k ≥ 0 then num < den * Nat.pow 2 k.toNat else num * Nat.pow 2 (-k).toNat < den
  ((if above then k - 1 else k) - 52 + 1074).toNat

/-- The place of the double nearest to `num / den`, a half going to the even significand; at or
beyond `Double.limit` the quotient is too great for a double. -/
def placeOf (num den : Nat) : Nat :=
  if num = 0 then 0
  else
    let u := unitOf num den
    u * Double.block + roundEven (num * Nat.pow 2 (1074 - u)) (den * Nat.pow 2 (u - 1074))

def Double.ofPlace? (negative : Bool) (place : Nat) : Option Double :=
  if h : place < Double.limit then some ⟨negative, place, h⟩ else none

def Double.ofFraction? (negative : Bool) (num den : Nat) : Option Double :=
  ofPlace? negative (placeOf num den)

def Double.ofDecimal? (negative : Bool) (digits : Nat) (exponent : Int) : Option Double :=
  if digits = 0 then ofPlace? negative 0
  else
    let size : Int := (digits.log2 : Int) / 4 + exponent
    if size > 400 then none
    else if exponent < 0 && (digits.log2 : Int) + 3 * exponent < -1200 then ofPlace? negative 0
    else if exponent ≥ 0 then ofFraction? negative (digits * Nat.pow 10 exponent.toNat) 1
    else ofFraction? negative digits (Nat.pow 10 (-exponent).toNat)

example : (Double.ofDecimal? false 1 0).map Double.place = some 0x3FF0000000000000 := by
  decide +kernel
example : (Double.ofDecimal? false 1 (-1)).map Double.place = some 0x3FB999999999999A := by
  decide +kernel
example : (Double.ofDecimal? false 5 (-324)).map Double.place = some 1 := by decide +kernel
example : Double.ofDecimal? false 1 400 = none := by decide +kernel

end StaticSite.Number
