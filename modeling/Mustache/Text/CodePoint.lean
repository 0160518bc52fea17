import Mustache.Text.Quoted

/-!
This module contains texts whose characters may be surrogates. Documents and the environment can hold such texts;
strings are those among them that hold no surrogate.
-/

namespace Mustache

inductive CodePoint where
  | char (c : Char)
  /-- The surrogates are `U+D800` and the code points up to `U+DFFF`. -/
  | surrogate (offset : Fin 0x800)
  deriving DecidableEq

namespace CodePoint

def toNat : CodePoint → Nat
  | char c => c.toNat
  | surrogate offset => 0xD800 + offset

@[simp]
theorem toNat_char (c : Char) : (char c).toNat = c.toNat := by
  rfl

@[simp]
theorem toNat_surrogate (offset : Fin 0x800) : (surrogate offset).toNat = 0xD800 + offset := by
  rfl

def ofNat (n : Nat) : CodePoint :=
  if h : 0xD800 ≤ n ∧ n < 0xE000 then surrogate ⟨n - 0xD800, by omega⟩ else char (Char.ofNat n)

def char? : CodePoint → Option Char
  | char c => some c
  | surrogate _ => none

def isHigh : CodePoint → Bool
  | char _ => false
  | surrogate offset => offset < 0x400

def isLow : CodePoint → Bool
  | char _ => false
  | surrogate offset => 0x400 ≤ offset.val

def escape (c : CodePoint) : List Char :=
  Quoted.unicodeEscape c.toNat

end CodePoint

abbrev Text := List CodePoint

namespace Text

def ofString (s : String) : Text :=
  s.toList.map .char

instance : Coe String Text := ⟨ofString⟩

/-- Surrogates are lost. -/
def narrow (s : Text) : String :=
  String.ofList (s.map fun c => c.char?.getD '\uFFFD')

def printed (s : Text) : String :=
  String.ofList (s.flatMap fun c => (c.char?.map ([·])).getD c.escape)

def quoted (s : Text) : String :=
  let quote := Quoted.quoteOf (s.filterMap CodePoint.char?)
  String.ofList (quote :: s.flatMap (escapeIn quote) ++ [quote])
where
  escapeIn (quote : Char) (c : CodePoint) : List Char :=
    (c.char?.map (Quoted.escapeChar quote)).getD c.escape

end Text

class Alphabet (κ : Type) where
  ofChar : Char → κ

/-- Texts made of characters `κ`: there are those with surrogates and those without. -/
class Textual (τ : Type) (κ : outParam Type) extends Append τ where
  chars : τ → List κ
  ofChars : List κ → τ
  ofString : String → τ
  quoted : τ → String

instance : Alphabet Char := ⟨id⟩

instance : Alphabet CodePoint := ⟨.char⟩

instance : Textual String Char where
  chars := String.toList
  ofChars := String.ofList
  ofString := id
  quoted := Quoted.text

instance : Textual Text CodePoint where
  chars := id
  ofChars := id
  ofString := Text.ofString
  quoted := Text.quoted

end Mustache
