/-!
This module contains double precision numbers as exact values, and the rounding of quotients, sums and
products to the nearest of them.
-/

namespace Mustache

/--
A double precision number. A finite one is `mantissa * 2 ^ exponent` with its sign, where
`mantissa < 2 ^ 53` and `-1074 ≤ exponent ≤ 971`, and `2 ^ 52 ≤ mantissa` unless the exponent is the
least one.
-/
inductive Binary64 where
  | finite (negative : Bool) (mantissa : Nat) (exponent : Int)
  | infinite (negative : Bool)
  | nan
  deriving DecidableEq

namespace Binary64

def roundQuotient (num den : Nat) : Nat :=
  let quotient := num / den
  let twice := 2 * (num % den)
  if twice < den ∨ (twice = den ∧ quotient % 2 = 0) then quotient else quotient + 1

def leastNormal : Nat := Nat.pow 2 52

def scaled (num den : Nat) (exponent : Int) : Nat × Nat :=
  (num * Nat.pow 2 (-exponent).toNat, den * Nat.pow 2 exponent.toNat)

/-- The exponent at which `num / den` has 53 binary digits before the point, if that is not too low. -/
def exponentOf (num den : Nat) : Int :=
  let guess : Int := (num.log2 : Int) - den.log2 - 52
  let (n, d) := scaled num den guess
  max (-1074) (if n / d < leastNormal then guess - 1 else guess)

/--
The double nearest to `num / den`, the one with the even mantissa of two, or `none` if that exceeds
the largest double.
-/
def ofQuotient? (negative : Bool) (num den : Nat) : Option Binary64 :=
  if num = 0 then
    some (.finite negative 0 (-1074))
  else
    let exponent := exponentOf num den
    let (n, d) := scaled num den exponent
    let mantissa := roundQuotient n d
    let (mantissa, exponent) :=
      if mantissa = 2 * leastNormal then (leastNormal, exponent + 1) else (mantissa, exponent)
    if exponent ≤ 971 then some (.finite negative mantissa exponent) else none

/--
The double nearest to `digits * 10 ^ exponent`; what exceeds the largest double is infinite. Powers
that are far out of range are not computed.
-/
def ofScientific (negative : Bool) (digits : Nat) (exponent : Int) : Binary64 :=
  let magnitude : Int := (digits.log2 : Int) / 4 + exponent
  if digits = 0 ∨ magnitude + digits.log2 < -400 then
    .finite negative 0 (-1074)
  else if 400 < magnitude then
    .infinite negative
  else
    match ofQuotient? negative (digits * Nat.pow 10 exponent.toNat)
        (Nat.pow 10 (-exponent).toNat) with
    | some value => value
    | none => .infinite negative

def exactly (negative : Bool) (mantissa : Nat) (exponent : Int) : Rat :=
  let magnitude := mkRat (mantissa * Nat.pow 2 exponent.toNat) (Nat.pow 2 (-exponent).toNat)
  if negative then -magnitude else magnitude

def toRat? : Binary64 → Option Rat
  | finite negative mantissa exponent => some (exactly negative mantissa exponent)
  | infinite _ => none
  | nan => none

def ofRat (q : Rat) : Binary64 :=
  match ofQuotient? (q.num < 0) q.num.natAbs q.den with
  | some value => value
  | none => .infinite (q.num < 0)

def isZero : Binary64 → Bool
  | finite _ mantissa _ => mantissa = 0
  | _ => false

def isNegative : Binary64 → Bool
  | finite negative _ _ => negative
  | infinite negative => negative
  | nan => false

def negate : Binary64 → Binary64
  | finite negative mantissa exponent => finite (!negative) mantissa exponent
  | infinite negative => infinite (!negative)
  | nan => nan

def add (x y : Binary64) : Binary64 :=
  match x, y with
  | nan, _ => nan
  | _, nan => nan
  | infinite a, infinite b => if a = b then infinite a else nan
  | infinite a, finite .. => infinite a
  | finite .., infinite b => infinite b
  | finite a m i, finite b n j =>
    if m = 0 ∧ n = 0 then finite (a && b) 0 (-1074) else ofRat (exactly a m i + exactly b n j)

def mul (x y : Binary64) : Binary64 :=
  let negative := x.isNegative != y.isNegative
  match x, y with
  | nan, _ => nan
  | _, nan => nan
  | infinite _, y => if y.isZero then nan else infinite negative
  | x, infinite _ => if x.isZero then nan else infinite negative
  | finite a m i, finite b n j =>
    if m = 0 ∨ n = 0 then finite negative 0 (-1074) else ofRat (exactly a m i * exactly b n j)

def absLe (value : Binary64) (num den : Nat) : Bool :=
  match value with
  | .finite _ mantissa exponent =>
    mantissa * Nat.pow 2 exponent.toNat * den ≤ num * Nat.pow 2 (-exponent).toNat
  | .infinite _ => false
  | .nan => false

end Binary64

end Mustache
