import Mustache.Number.Binary64

/-!
This module contains decimal numbers that keep the digits they were written with, their text, and
their conversion to a double.
-/

namespace Mustache

inductive Decimal where
  | finite (negative : Bool) (digits : Nat) (exponent : Int)
  | infinite (negative : Bool)
  | nan (negative signaling : Bool) (payload : List Char)
  deriving DecidableEq

def digitsValue (digits : List Char) : Nat :=
  digits.foldl (fun n c => n * 10 + (c.toNat - '0'.toNat)) 0

namespace Decimal

def readSign : List Char → Bool × List Char
  | '-' :: rest => (true, rest)
  | '+' :: rest => (false, rest)
  | rest => (false, rest)

def readExponent? : List Char → Option Int
  | [] => some 0
  | mark :: rest =>
    let (negative, digits) := readSign rest
    if mark.toLower = 'e' ∧ digits ≠ [] ∧ digits.all Char.isDigit then
      some (if negative then -(digitsValue digits : Int) else digitsValue digits)
    else
      none

def readNumber? (cs : List Char) : Option (Nat × Int) :=
  let whole := cs.takeWhile Char.isDigit
  let rest := cs.dropWhile Char.isDigit
  let (fraction, rest) :=
    match rest with
    | '.' :: rest => (rest.takeWhile Char.isDigit, rest.dropWhile Char.isDigit)
    | rest => ([], rest)
  if whole = [] ∧ fraction = [] then
    none
  else
    (readExponent? rest).map fun exponent =>
      (digitsValue (whole ++ fraction), exponent - fraction.length)

def infinityNames : List String := ["inf", "infinity"]

def ofText? (s : String) : Option Decimal :=
  let (negative, cs) := readSign s.toList
  let name := cs.map Char.toLower
  if infinityNames.contains (String.ofList name) then
    some (.infinite negative)
  else if ['n', 'a', 'n'].isPrefixOf name ∧ (cs.drop 3).all Char.isDigit then
    some (.nan negative false ((cs.drop 3).dropWhile (· == '0')))
  else if ['s', 'n', 'a', 'n'].isPrefixOf name ∧ (cs.drop 4).all Char.isDigit then
    some (.nan negative true ((cs.drop 4).dropWhile (· == '0')))
  else
    (readNumber? cs).map fun (digits, exponent) => .finite negative digits exponent

/--
The text of `digits * 10 ^ exponent`: positional if the exponent is not positive and at most six
places stand between the point and the leading digit, else with an exponent after one leading digit.
-/
def layout (digits : Nat) (exponent : Int) : List Char :=
  let ds := (toString digits).toList
  let leading : Int := ds.length + exponent
  let point : Int := if exponent ≤ 0 ∧ -6 < leading then leading else 1
  let mantissa :=
    if point ≤ 0 then
      '0' :: '.' :: List.replicate (-point).toNat '0' ++ ds
    else if ds.length ≤ point then
      ds ++ List.replicate (point.toNat - ds.length) '0'
    else
      ds.take point.toNat ++ '.' :: ds.drop point.toNat
  if leading = point then
    mantissa
  else
    let shift := leading - point
    mantissa ++ 'E' :: (if shift < 0 then '-' else '+') :: (toString shift.natAbs).toList

def isNegative : Decimal → Bool
  | finite negative _ _ => negative
  | infinite negative => negative
  | nan negative _ _ => negative

def text (value : Decimal) : String :=
  let magnitude :=
    match value with
    | finite _ digits exponent => layout digits exponent
    | infinite _ => "Infinity".toList
    | nan _ signaling payload => (if signaling then "sNaN" else "NaN").toList ++ payload
  String.ofList (if value.isNegative then '-' :: magnitude else magnitude)

def precision : Nat := 28

def round (digits : Nat) (exponent : Int) : Nat × Int :=
  let excess := (toString digits).length - precision
  (Binary64.roundQuotient digits (Nat.pow 10 excess), exponent + excess)

def maxExponent : Int := 999999

def isBeyondRange : Decimal → Bool
  | finite _ digits exponent =>
    let (digits, exponent) := round digits exponent
    digits ≠ 0 && maxExponent < ((toString digits).length : Int) - 1 + exponent
  | _ => false

def isSignaling : Decimal → Bool
  | nan _ signaling _ => signaling
  | _ => false

def magnitude : Decimal → Binary64
  | finite _ digits exponent =>
    let (digits, exponent) := round digits exponent
    .ofScientific false digits exponent
  | infinite _ => .infinite false
  | nan .. => .nan

end Decimal

namespace Binary64

def ofText? (s : String) : Option Binary64 :=
  let (negative, cs) := Decimal.readSign s.toList
  let name := cs.map Char.toLower
  if Decimal.infinityNames.contains (String.ofList name) then
    some (.infinite negative)
  else if name = ['n', 'a', 'n'] then
    some .nan
  else
    (Decimal.readNumber? cs).map fun (digits, exponent) => ofScientific negative digits exponent

end Binary64

end Mustache
