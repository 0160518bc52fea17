import Mustache.Text.CodePoint
import Mustache.Value.Basic
import Mustache.Yaml.Place

/-!
This module contains the values of scalars that are written without quotes. Which of them are numbers,
flags, dates or nothing is decided by their form alone; all others are text. A few have the form of a
number or a date and yet no value.
-/

namespace Mustache.Yaml

inductive ScalarFault where
  | noDigits (base : Nat)
  | longInteger (digits : Nat)
  | tooManyPlaces
  | calendar (fault : CalendarFault)
  | noCharacter
  | hugeCharacter
  deriving DecidableEq

namespace ScalarFault

def isOverflow : ScalarFault → Bool
  | tooManyPlaces => true
  | hugeCharacter => true
  | _ => false

def message : ScalarFault → String
  | noDigits base => "invalid literal for int() with base " ++ toString base ++ ": ''"
  | longInteger digits => Digits.message (some digits)
  | tooManyPlaces => MagnitudeError.integer.message
  | calendar fault => fault.message
  | noCharacter => "chr() arg not in range(0x110000)"
  | hugeCharacter => "Python int too large to convert to C int"

end ScalarFault

def nullNames : List String := ["", "~", "null", "Null", "NULL"]

def trueNames : List String :=
  ["yes", "Yes", "YES", "true", "True", "TRUE", "on", "On", "ON"]

def falseNames : List String :=
  ["no", "No", "NO", "false", "False", "FALSE", "off", "Off", "OFF"]

def infinityNames : List String := [".inf", ".Inf", ".INF"]

def nanNames : List String := [".nan", ".NaN", ".NAN"]

def isDigitOrGap (c : Char) : Bool :=
  c.isDigit || c == '_'

def digitOf (c : Char) : Nat :=
  if c.isDigit then c.toNat - '0'.toNat else c.toLower.toNat - 'a'.toNat + 10

def valueOf (base : Nat) (digits : List Char) : Nat :=
  (digits.filter (· ≠ '_')).foldl (fun n c => n * base + digitOf c) 0

def areDigits (base : Nat) (cs : List Char) : Bool :=
  cs.all fun c => c == '_' || (c.isAlphanum && digitOf c < base)

/-! ### Integers -/

def decimal (digits : List Char) : Except ScalarFault Nat :=
  let count := (digits.filter (· ≠ '_')).length
  if Digits.limit < count then .error (.longInteger count) else .ok (valueOf 10 digits)

def based (base : Nat) (digits : List Char) : Except ScalarFault Nat :=
  if digits.all (· == '_') then .error (.noDigits base) else .ok (valueOf base digits)

def isSixtieth (cs : List Char) : Bool :=
  cs ≠ [] && cs.all Char.isDigit && cs.length ≤ 2 && valueOf 10 cs < 60

/-- A number in sixties, such as minutes and seconds: each part but the first is below 60. -/
def sixties? (cs : List Char) : Option (Except ScalarFault Nat) :=
  match pieces ':' cs with
  | first :: second :: rest =>
    if (first.head?.any fun c => c.isDigit && c ≠ '0') && first.all isDigitOrGap &&
        (second :: rest).all isSixtieth then
      some ((decimal first).map fun n =>
        (second :: rest).foldl (fun n part => n * 60 + valueOf 10 part) n)
    else
      none
  | _ => none

def natural? (cs : List Char) : Option (Except ScalarFault Nat) :=
  match cs with
  | '0' :: 'b' :: digits =>
    if digits ≠ [] ∧ areDigits 2 digits then some (based 2 digits) else none
  | '0' :: 'x' :: digits =>
    if digits ≠ [] ∧ areDigits 16 digits then some (based 16 digits) else none
  | '0' :: digits => if areDigits 8 digits then some (.ok (valueOf 8 digits)) else none
  | first :: digits =>
    if first.isDigit ∧ digits.all isDigitOrGap then
      some (decimal (first :: digits))
    else
      sixties? cs
  | [] => none

def signed (negative : Bool) (n : Nat) : Int :=
  if negative then -(n : Int) else n

/-! ### Numbers with a point -/

def exponent? (cs : List Char) : Option Int :=
  match cs with
  | [] => some 0
  | mark :: sign :: digits =>
    if mark.toLower = 'e' ∧ (sign = '+' ∨ sign = '-') ∧ digits ≠ [] ∧ digits.all Char.isDigit then
      some (signed (sign = '-') (valueOf 10 digits))
    else
      none
  | _ => none

def nearest (whole fraction : List Char) (exponent : Int) : Binary64 :=
  .ofScientific false (valueOf 10 (whole ++ fraction))
    (exponent - (fraction.filter (· ≠ '_')).length)

def sumSixties (total : Binary64) (base : Nat) : List Binary64 → Option Binary64
  | [] => some total
  | part :: rest =>
    match Binary64.ofQuotient? false base 1 with
    | none => none
    | some power => sumSixties (total.add (part.mul power)) (base * 60) rest

def realSixties? (cs : List Char) : Option (Except ScalarFault Binary64) :=
  match (pieces ':' cs).reverse with
  | last :: middle =>
    let whole := last.takeWhile (· ≠ '.')
    match last.dropWhile (· ≠ '.'), middle.reverse with
    | '.' :: fraction, first :: rest =>
      if (first.head?.any Char.isDigit) && first.all isDigitOrGap &&
          (rest ++ [whole]).all isSixtieth && fraction.all isDigitOrGap then
        let parts := nearest whole fraction 0 :: middle.map fun part => nearest part [] 0
        let zero := Binary64.finite false 0 (-1074)
        match sumSixties zero 1 parts with
        | none => some (.error .tooManyPlaces)
        | some sum => some (.ok sum)
      else
        none
    | _, _ => none
  | [] => none

/--
Reads a number with a point. It must begin with a digit, or with the point and a digit if it has no
sign.
-/
def real? (hasSign : Bool) (cs : List Char) : Option (Except ScalarFault Binary64) :=
  let whole := cs.takeWhile isDigitOrGap
  match cs.dropWhile isDigitOrGap with
  | '.' :: rest =>
    let fraction := rest.takeWhile isDigitOrGap
    let first := if whole = [] ∧ !hasSign then fraction else whole
    if first.head?.any Char.isDigit then
      (exponent? (rest.dropWhile isDigitOrGap)).map fun exponent =>
        .ok (nearest whole fraction exponent)
    else
      none
  | ':' :: _ => realSixties? cs
  | _ => none

/-! ### Dates -/

def digits? (least most : Nat) (cs : List Char) : Option (Nat × List Char) :=
  let digits := cs.takeWhile Char.isDigit
  if least ≤ digits.length ∧ digits.length ≤ most then
    some (valueOf 10 digits, cs.drop digits.length)
  else
    none

def after? (c : Char) : List Char → Option (List Char)
  | [] => none
  | d :: rest => if d = c then some rest else none

def separator? (cs : List Char) : Option (List Char) :=
  match cs with
  | 'T' :: rest => some rest
  | 't' :: rest => some rest
  | c :: rest => if isBlank c then some (rest.dropWhile isBlank) else none
  | [] => none

/-- Reads a fraction of a second, which may be missing. Of its digits six count. -/
def fraction (cs : List Char) : Nat × List Char :=
  match cs with
  | '.' :: rest =>
    let digits := (rest.takeWhile Char.isDigit).take 6
    (valueOf 10 (digits ++ List.replicate (6 - digits.length) '0'), rest.dropWhile Char.isDigit)
  | cs => (0, cs)

def offset? (cs : List Char) : Option (Option Int) :=
  match cs, cs.dropWhile isBlank with
  | [], _ => some none
  | _, ['Z'] => some (some 0)
  | _, sign :: rest =>
    if sign = '+' ∨ sign = '-' then do
      let (hours, rest) ← digits? 1 2 rest
      let (minutes, rest) ←
        match rest with
        | ':' :: rest => digits? 2 2 rest
        | rest => some (0, rest)
      if rest = [] then some (some (signed (sign = '-') (hours * 60 + minutes))) else none
    else
      none
  | _, [] => none

def timestamp? (cs : List Char) : Option (Except ScalarFault (Value Text)) := do
  let (year, rest) ← digits? 4 4 cs
  let (month, rest) ← digits? 1 2 (← after? '-' rest)
  let (day, rest) ← digits? 1 2 (← after? '-' rest)
  let date : Date := ⟨year, month, day⟩
  if rest = [] then
    if cs.length = 10 then
      match date.fault? with
      | some fault => some (.error (.calendar fault))
      | none => some (.ok (.date date))
    else
      none
  else
    let (hour, rest) ← digits? 1 2 (← separator? rest)
    let (minute, rest) ← digits? 2 2 (← after? ':' rest)
    let (second, rest) ← digits? 2 2 (← after? ':' rest)
    let (micros, rest) := fraction rest
    let moment : Moment := ⟨date, hour, minute, second, micros, ← offset? rest⟩
    match moment.fault? with
    | some fault => some (.error (.calendar fault))
    | none => some (.ok (.moment moment))

/-! ### Scalars -/

def scalar (s : String) : Except ScalarFault (Value Text) :=
  let (negative, magnitude) := Decimal.readSign s.toList
  if nullNames.contains s then .ok .null
  else if trueNames.contains s then .ok (.bool true)
  else if falseNames.contains s then .ok (.bool false)
  else if nanNames.contains s then .ok (.float .nan)
  else if infinityNames.contains (String.ofList magnitude) then .ok (.float (.infinite negative))
  else
    match natural? magnitude, real? (magnitude.length < s.length) magnitude,
        timestamp? s.toList with
    | some read, _, _ => read.map fun n => .int (signed negative n)
    | none, some read, _ => read.map fun x => .float (if negative then x.negate else x)
    | none, none, some read => read
    | none, none, none => .ok (.text s)

end Mustache.Yaml
