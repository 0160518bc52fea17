import Mustache.Text.Json

/-!
This module contains the reading of JSON texts. It knows the whole of JSON: blanks between what belongs together,
escapes and surrogates in texts, fractions and powers of ten in numbers. The members of an object stay in order.
-/

namespace Mustache.Json

/-! ### Texts -/

def hexDigit? (c : Char) : Option Nat :=
  if '0' ≤ c ∧ c ≤ '9' then some (c.toNat - '0'.toNat)
  else if 'a' ≤ c ∧ c ≤ 'f' then some (c.toNat - 'a'.toNat + 10)
  else if 'A' ≤ c ∧ c ≤ 'F' then some (c.toNat - 'A'.toNat + 10)
  else none

def unit? : List Char → Option (Nat × List Char)
  | '\\' :: 'u' :: a :: b :: c :: d :: rest =>
    match hexDigit? a, hexDigit? b, hexDigit? c, hexDigit? d with
    | some a, some b, some c, some d => some (((a * 16 + b) * 16 + c) * 16 + d, rest)
    | _, _, _, _ => none
  | _ => none

def escaped? : Char → Option Char
  | '"' => some '"'
  | '\\' => some '\\'
  | '/' => some '/'
  | 'b' => some '\x08'
  | 'f' => some '\x0c'
  | 'n' => some '\n'
  | 'r' => some '\r'
  | 't' => some '\t'
  | _ => none

/-- The character that a surrogate makes up with the one behind it, if they belong together. -/
def pair? (high : Nat) (rest : List Char) : Option (CodePoint × List Char) :=
  match unit? rest with
  | some (low, rest) =>
    if (0xD800 ≤ high ∧ high < 0xDC00) ∧ 0xDC00 ≤ low ∧ low < 0xE000 then
      some (.char (Char.ofNat (0x10000 + (high - 0xD800) * 0x400 + (low - 0xDC00))), rest)
    else
      none
  | none => none

/-- Reads a character of a text, which may be a surrogate on its own. -/
def char? (cs : List Char) : Option (CodePoint × List Char) :=
  match unit? cs, cs with
  | some (unit, rest), _ => some ((pair? unit rest).getD (.ofNat unit, rest))
  | none, '\\' :: mark :: rest => (escaped? mark).map fun c => (.char c, rest)
  | none, c :: rest => if c.toNat < 0x20 ∨ c = '"' ∨ c = '\\' then none else some (.char c, rest)
  | none, [] => none

theorem length_of_unit? {cs rest : List Char} {unit : Nat} (h : unit? cs = some (unit, rest))
    : rest.length < cs.length := by
  unfold unit? at h
  split at h
  . split at h
    . injection h with h
      injection h with _ h
      rw [← h]
      simp only [List.length_cons]
      omega
    . contradiction
  . contradiction

theorem length_of_pair? {cs rest : List Char} {high : Nat} {c : CodePoint} (h : pair? high cs = some (c, rest))
    : rest.length < cs.length := by
  unfold pair? at h
  split at h
  . next low rest' hlow =>
    split at h
    . injection h with h
      injection h with _ h
      rw [← h]
      exact length_of_unit? hlow
    . contradiction
  . contradiction

theorem length_of_char? {cs rest : List Char} {c : CodePoint} (h : char? cs = some (c, rest))
    : rest.length < cs.length := by
  unfold char? at h
  split at h
  . next unit rest' hunit =>
    have hlength := length_of_unit? hunit
    injection h with h
    cases hpair : pair? unit rest' with
    | none =>
      rw [hpair] at h
      injection h with _ h
      rwa [← h]
    | some found =>
      rw [hpair, Option.getD_some] at h
      rw [h] at hpair
      exact Nat.lt_trans (length_of_pair? hpair) hlength
  . rw [Option.map_eq_some_iff] at h
    rcases h with ⟨c, _, h⟩
    injection h with _ h
    rw [← h]
    simp only [List.length_cons]
    omega
  . split at h
    . contradiction
    . injection h with h
      injection h with _ h
      rw [← h]
      exact Nat.lt_succ_self _
  . contradiction

def chars? (cs : List Char) : Option (Text × List Char) :=
  match cs with
  | '"' :: rest => some ([], rest)
  | cs =>
    match _h : char? cs with
    | none => none
    | some (c, rest) => (chars? rest).map fun (cs, rest) => (c :: cs, rest)
termination_by cs.length
decreasing_by exact length_of_char? _h

def text? : List Char → Option (Text × List Char)
  | '"' :: rest => chars? rest
  | _ => none

/-! ### Numbers -/

def digits (cs : List Char) : List Char × List Char :=
  (cs.takeWhile Char.isDigit, cs.dropWhile Char.isDigit)

/-- The digits of an integer. Behind a zero there are none. -/
def wholeDigits (cs : List Char) : List Char × List Char :=
  match cs with
  | '0' :: rest => (['0'], rest)
  | cs => digits cs

def fraction (cs : List Char) : List Char × List Char :=
  match cs with
  | '.' :: rest =>
    match digits rest with
    | ([], _) => ([], cs)
    | found => found
  | cs => ([], cs)

def signed (negative : Bool) (n : Nat) : Int :=
  if negative then -(n : Int) else n

/-- The power of ten by which a number is multiplied, if there is a mark of it with digits. -/
def power? (cs : List Char) : Option Int × List Char :=
  match cs with
  | mark :: rest =>
    if mark = 'e' ∨ mark = 'E' then
      let (negative, unsigned) :=
        match rest with
        | '-' :: rest => (true, rest)
        | '+' :: rest => (false, rest)
        | rest => (false, rest)
      match digits unsigned with
      | ([], _) => (none, cs)
      | (found, rest) => (some (signed negative (Nat.ofDigitChars 10 found 0)), rest)
    else
      (none, cs)
  | [] => (none, [])

def minus (cs : List Char) : Bool × List Char :=
  match cs with
  | '-' :: rest => (true, rest)
  | cs => (false, cs)

/-- Reads a number. It is an integer if it has neither a fraction nor a power of ten. -/
def number? (cs : List Char) : Option (Json × List Char) :=
  let (negative, cs) := minus cs
  let (whole, cs) := wholeDigits cs
  let (decimals, cs) := fraction cs
  let (power, cs) := power? cs
  if whole = [] then
    none
  else if decimals = [] ∧ power = none then
    some (.int (signed negative (Nat.ofDigitChars 10 whole 0)), cs)
  else
    let number := Nat.ofDigitChars 10 (whole ++ decimals) 0
    some (.float (.ofScientific negative number (power.getD 0 - decimals.length)), cs)

/-! ### Values -/

def isBlank (c : Char) : Bool :=
  c = ' ' || c = '\t' || c = '\n' || c = '\r'

def skip (cs : List Char) : List Char :=
  cs.dropWhile isBlank

mutual

/-- Reads a value, which has at most `depth` values inside each other and beside each other. -/
def value? : Nat → List Char → Option (Json × List Char)
  | 0, _ => none
  | depth + 1, cs =>
    match cs with
    | 'n' :: 'u' :: 'l' :: 'l' :: rest => some (.null, rest)
    | 't' :: 'r' :: 'u' :: 'e' :: rest => some (.bool true, rest)
    | 'f' :: 'a' :: 'l' :: 's' :: 'e' :: rest => some (.bool false, rest)
    | '"' :: _ => (text? cs).map fun (s, rest) => (.text s, rest)
    | '[' :: rest =>
      match skip rest with
      | ']' :: rest => some (.array [], rest)
      | rest => (items? depth rest).map fun (items, rest) => (.array items, rest)
    | '\x7b' :: rest =>
      match skip rest with
      | '\x7d' :: rest => some (.object [], rest)
      | rest => (members? depth rest).map fun (members, rest) => (.object members, rest)
    | cs => number? cs

def items? : Nat → List Char → Option (List Json × List Char)
  | 0, _ => none
  | depth + 1, cs =>
    match value? depth cs with
    | none => none
    | some (item, rest) =>
      match skip rest with
      | ']' :: rest => some ([item], rest)
      | ',' :: rest => (items? depth (skip rest)).map fun (items, rest) => (item :: items, rest)
      | _ => none

def members? : Nat → List Char → Option (List (Text × Json) × List Char)
  | 0, _ => none
  | depth + 1, cs =>
    match text? cs with
    | none => none
    | some (name, rest) =>
      match skip rest with
      | ':' :: rest =>
        match value? depth (skip rest) with
        | none => none
        | some (value, rest) =>
          match skip rest with
          | '\x7d' :: rest => some ([(name, value)], rest)
          | ',' :: rest =>
            (members? depth (skip rest)).map fun (members, rest) => ((name, value) :: members, rest)
          | _ => none
      | _ => none

end

/-- Reads a JSON text. The members of an object stay in order. -/
def parse? (cs : List Char) : Option Json :=
  match value? (cs.length + 1) (skip cs) with
  | none => none
  | some (json, rest) => if skip rest = [] then some json else none

end Mustache.Json
