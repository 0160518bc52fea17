/-!
This module contains the limit on the decimal digits of integers. A text with more digits is not read
as an integer, and an integer with more digits has no text.
-/

namespace Mustache.Digits

def limit : Nat := 4300

/-- The binary logarithm of `10 ^ limit`, rounded down. -/
def limitLog2 : Nat := 14284

def exceedLimit (n : Nat) : Bool :=
  limitLog2 ≤ n.log2 && Nat.pow 10 limit ≤ n

def message (count? : Option Nat) : String :=
  let counted :=
    match count? with
    | none => ""
    | some count => ": value has " ++ toString count ++ " digits"
  "Exceeds the limit (" ++ toString limit ++ " digits) for integer string conversion" ++ counted ++
    "; use sys.set_int_max_str_digits() to increase the limit"

end Mustache.Digits
