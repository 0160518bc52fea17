import Mustache.Bytes

/-!
This module contains the marks that tags stand between, and the command by which a template changes
them.
-/

namespace Mustache

structure Marks where
  opening : Bytes
  closing : Bytes
  deriving DecidableEq

structure Delimiters extends Marks where
  opening_ne_nil : opening ≠ []
  closing_ne_nil : closing ≠ []
  deriving DecidableEq

namespace Delimiters

def standard : Delimiters where
  opening := [0x7B, 0x7B]
  closing := [0x7D, 0x7D]
  opening_ne_nil := by simp
  closing_ne_nil := by simp

theorem length_opening_pos (delims : Delimiters) : 0 < delims.opening.length :=
  List.length_pos_iff.mpr delims.opening_ne_nil

theorem length_closing_pos (delims : Delimiters) : 0 < delims.closing.length :=
  List.length_pos_iff.mpr delims.closing_ne_nil

def equals : UInt8 := 0x3D

/--
Reads the body of a command, its sigil included: between the two equals signs stand two marks with
one space between them, and spaces or tabs around them.
-/
def ofCommand? (body : Bytes) : Option Delimiters :=
  if body.length ≤ 4 ∨ body.getLast? ≠ some equals then
    none
  else
    match cutAt? Bytes.space (Bytes.trim (body.drop 1).dropLast) with
    | none => none
    | some (opening, closing) =>
      if h : opening ≠ [] ∧ closing ≠ [] ∧ Bytes.space ∉ closing then
        some ⟨⟨opening, closing⟩, h.1, h.2.1⟩
      else
        none

end Delimiters

end Mustache
