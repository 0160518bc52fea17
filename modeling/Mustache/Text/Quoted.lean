import Mustache.Bytes
import Mustache.Text.Printable

/-!
This module contains the quoted forms of texts and of byte strings. Between single quotes stands what
is printable; all else is escaped. Double quotes are used for what holds single quotes and no double
ones.
-/

namespace Mustache.Quoted

def lowerDigit (n : Nat) : Char :=
  if n < 10 then Char.ofNat (0x30 + n) else Char.ofNat (0x57 + n)

def hexadecimal (width n : Nat) : List Char :=
  (List.range width).reverse.map fun place => lowerDigit (n / Nat.pow 16 place % 16)

def unicodeEscape (n : Nat) : List Char :=
  '\\' :: 'u' :: hexadecimal 4 n

def quoteOf (cs : List Char) : Char :=
  if '\'' ∈ cs ∧ '"' ∉ cs then '"' else '\''

def escapeCommon? (mark c : Char) : Option (List Char) :=
  if c = mark ∨ c = '\\' then some ['\\', c]
  else if c = '\t' then some ['\\', 't']
  else if c = '\n' then some ['\\', 'n']
  else if c = '\r' then some ['\\', 'r']
  else none

def escapeChar (quote c : Char) : List Char :=
  match escapeCommon? quote c with
  | some escaped => escaped
  | none =>
    if isPrintable c then [c]
    else if c.toNat < 0x100 then '\\' :: 'x' :: hexadecimal 2 c.toNat
    else if c.toNat < 0x10000 then unicodeEscape c.toNat
    else '\\' :: 'U' :: hexadecimal 8 c.toNat

def escapeByte (mark : Char) (b : UInt8) : List Char :=
  let c := Char.ofNat b.toNat
  match escapeCommon? mark c with
  | some escaped => escaped
  | none =>
    if 0x20 ≤ b ∧ b < 0x7F then [c] else '\\' :: 'x' :: hexadecimal 2 b.toNat

def text (s : String) : String :=
  let quote := quoteOf s.toList
  String.ofList (quote :: s.toList.flatMap (escapeChar quote) ++ [quote])

def quoteOfBytes (b : Bytes) : Char :=
  quoteOf (b.map fun byte => Char.ofNat byte.toNat)

def bytes (b : Bytes) : String :=
  let quote := quoteOfBytes b
  String.ofList ('b' :: quote :: b.flatMap (escapeByte quote) ++ [quote])

/-- The quoted form of a buffer. A single quote in it is escaped between double quotes, too. -/
def buffer (b : Bytes) : String :=
  let quote := quoteOfBytes b
  "bytearray(" ++ String.ofList ('b' :: quote :: b.flatMap (escapeByte '\'') ++ [quote]) ++ ")"

end Mustache.Quoted
