/-!
This module contains the characters of a document with the places where they stand, and the excerpts
that show a place.
-/

namespace Mustache.Yaml

structure Place where
  offset : Nat
  line : Nat
  column : Nat
  deriving DecidableEq

structure Placed where
  char : Char
  place : Place

structure Source where
  name : String
  text : List Char
  isShown : Bool
  deriving DecidableEq

def byteOrderMark : Char := '\ufeff'

def isBreak (c : Char) : Bool :=
  c == '\n' || c == '\u0085' || c == '\u2028' || c == '\u2029'

/-- The character that a line break is in a text: all but the separators are newlines. -/
def breakText (c : Char) : Char :=
  if c = '\u0085' then '\n' else c

def isBlank (c : Char) : Bool :=
  c == ' ' || c == '\t'

def isBlankOrBreak (c : Char) : Bool :=
  isBlank c || isBreak c

namespace Place

def start : Place := ⟨0, 0, 0⟩

def after (place : Place) (c : Char) : Place :=
  if isBreak c then ⟨place.offset + 1, place.line + 1, 0⟩
  else if c = byteOrderMark then { place with offset := place.offset + 1 }
  else ⟨place.offset + 1, place.line, place.column + 1⟩

def spread (place : Place) : List Char → List Placed
  | [] => []
  | c :: rest => ⟨c, place⟩ :: (place.after c).spread rest

end Place

/-! ### Excerpts -/

def excerptWidth : Nat := 36

def ellipsis : List Char := " ... ".toList

def excerptSide (cs : List Char) : List Char :=
  let line := cs.takeWhile fun c => !isBreak c
  if excerptWidth < line.length then
    line.take (excerptWidth + 1 - ellipsis.length) ++ ellipsis
  else
    line

def Place.excerpt (place : Place) (text : List Char) : String :=
  let before := (excerptSide (text.take place.offset).reverse).reverse
  let indent := List.replicate 4 ' '
  String.ofList (indent ++ before ++ excerptSide (text.drop place.offset) ++ '\n' :: indent ++
    List.replicate before.length ' ' ++ ['^'])

def Place.describe (place : Place) (source : Source) : String :=
  let shown := if source.isShown then ":\n" ++ place.excerpt source.text else ""
  "  in \"" ++ source.name ++ "\", line " ++ toString (place.line + 1) ++ ", column " ++
    toString (place.column + 1) ++ shown

end Mustache.Yaml
