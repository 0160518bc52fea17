import Mustache.Number.Binary64

/-!
This module contains the text of a double: the fewest decimal digits that round to it, and of these
the nearest.
-/

namespace Mustache.Binary64

structure Scientific where
  digits : Nat
  exponent : Int
  deriving DecidableEq

def compareScaled (a : Nat) (i : Int) (n : Nat) (j : Int) : Ordering :=
  compare (a * Nat.pow 10 i.toNat * Nat.pow 2 (-j).toNat)
    (n * Nat.pow 2 j.toNat * Nat.pow 10 (-i).toNat)

/--
Whether a decimal lies among the reals that round to `mantissa * 2 ^ exponent`. These end halfway to
the two neighbours; the ends belong to the even mantissa. The neighbour below a power of two is half
as far away as the one above.
-/
def readsBack (mantissa : Nat) (exponent : Int) (decimal : Scientific) : Bool :=
  let low :=
    if mantissa = leastNormal ∧ -1074 < exponent then 4 * mantissa - 1 else 4 * mantissa - 2
  let high := 4 * mantissa + 2
  let closed := mantissa % 2 == 0
  let atLow := compareScaled decimal.digits decimal.exponent low (exponent - 2)
  let atHigh := compareScaled decimal.digits decimal.exponent high (exponent - 2)
  (atLow == .gt || (closed && atLow == .eq)) && (atHigh == .lt || (closed && atHigh == .eq))

def onGrid? (mantissa : Nat) (exponent power : Int) : Option Scientific :=
  let num := mantissa * Nat.pow 2 exponent.toNat * Nat.pow 10 (-power).toNat
  let den := Nat.pow 2 (-exponent).toNat * Nat.pow 10 power.toNat
  let below := num / den
  let nearest := roundQuotient num den
  let other := if nearest = below then below + 1 else below
  if readsBack mantissa exponent ⟨nearest, power⟩ then
    some ⟨nearest, power⟩
  else if readsBack mantissa exponent ⟨other, power⟩ then
    some ⟨other, power⟩
  else
    none

/--
The shortest decimal that reads back, for a mantissa that is not zero: grids are tried from one that
is too coarse on. Within 20 grids one is found; the exact value stands in case none were.
-/
def shortest (mantissa : Nat) (exponent : Int) : Scientific :=
  go 20 (((mantissa.log2 : Int) + 1 + exponent) * 30103 / 100000 + 1)
where
  go : Nat → Int → Scientific
    | 0, _ => ⟨mantissa * Nat.pow 2 exponent.toNat * Nat.pow 5 (-exponent).toNat, min exponent 0⟩
    | n + 1, power =>
      match onGrid? mantissa exponent power with
      | some decimal => decimal
      | none => go n (power - 1)

def trimFraction (digits : List Char) : List Char :=
  match (digits.reverse.dropWhile (· == '0')).reverse with
  | [] => ['0']
  | kept => kept

def exponentText (exponent : Int) : List Char :=
  let digits := (toString exponent.natAbs).toList
  let padded := if digits.length < 2 then '0' :: digits else digits
  (if exponent < 0 then '-' else '+') :: padded

/--
The text of a decimal: a point and at least one digit after it if the leading digit stands for
`10 ^ -4` to `10 ^ 15`, else one digit before the point, no point without digits after it, and an
exponent.
-/
def layout (decimal : Scientific) : List Char :=
  let digits := ((toString decimal.digits).toList.reverse.dropWhile (· == '0')).reverse
  let leading : Int := (toString decimal.digits).length - 1 + decimal.exponent
  if -4 ≤ leading ∧ leading < 16 then
    if leading < 0 then
      '0' :: '.' :: List.replicate (-leading - 1).toNat '0' ++ digits
    else
      let whole := leading.toNat + 1
      digits.take whole ++ List.replicate (whole - digits.length) '0' ++
        '.' :: trimFraction (digits.drop whole)
  else
    match digits with
    | [] => ['0']
    | [digit] => digit :: 'e' :: exponentText leading
    | digit :: fraction => digit :: '.' :: fraction ++ 'e' :: exponentText leading

def text (value : Binary64) : String :=
  match value with
  | .nan => "nan"
  | .infinite negative => if negative then "-inf" else "inf"
  | .finite negative mantissa exponent =>
    let magnitude := if mantissa = 0 then ['0', '.', '0'] else layout (shortest mantissa exponent)
    String.ofList (if negative then '-' :: magnitude else magnitude)

end Mustache.Binary64
