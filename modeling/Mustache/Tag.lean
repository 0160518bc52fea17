import Mustache.Delimiters

/-!
This module contains tags and how they are found in a text. A text is never wrong: an opening mark
without a closing mark after it is simply no tag.
-/

namespace Mustache

/--
A tag of a text. The literal text before it ends at `start`, and the text after it begins at `stop`.
Its `body` is all that stands between its marks, the sigil included; `sigil` is the byte right after
the opening mark.
-/
structure Tag where
  start : Nat
  stop : Nat
  sigil : UInt8
  body : Bytes
  deriving DecidableEq

structure Span where
  start : Nat
  stop : Nat
  deriving DecidableEq

namespace Tag

def openBrace : UInt8 := 0x7B
def slash : UInt8 := 0x2F

def isTriple (marks : Marks) (sigil : UInt8) : Bool :=
  sigil == openBrace && marks = Delimiters.standard.toMarks

def endMark (marks : Marks) (sigil : UInt8) : Bytes :=
  if isTriple marks sigil then [0x7D, 0x7D, 0x7D] else marks.closing

def find? (text : Bytes) (marks : Marks) (pos : Nat) : Option Tag :=
  match Bytes.find? text marks.opening pos with
  | none => none
  | some start =>
    let inside := start + marks.opening.length
    match text[inside]? with
    | none => none
    | some sigil =>
      match Bytes.find? text (endMark marks sigil) inside with
      | none => none
      | some bodyStop =>
        some {
          start
          stop := bodyStop + (endMark marks sigil).length
          sigil
          body := Bytes.slice text inside bodyStop
        }

theorem length_endMark_pos (delims : Delimiters) (sigil : UInt8) :
    0 < (endMark delims.toMarks sigil).length := by
  simp only [endMark]
  split
  . simp
  . exact delims.length_closing_pos

theorem find?_bounds {text : Bytes} {delims : Delimiters} {pos : Nat} {tag : Tag}
    (h : find? text delims.toMarks pos = some tag) :
    pos ≤ tag.start ∧ tag.start < tag.stop ∧ tag.stop ≤ text.length := by
  simp only [find?] at h
  split at h
  . simp at h
  . next start hstart =>
    split at h
    . simp at h
    . next sigil hsigil =>
      split at h
      . simp at h
      . next bodyStop hstop =>
        simp only [Option.some.injEq] at h
        subst h
        have := Bytes.find?_bounds hstart
        have := Bytes.find?_bounds hstop
        have := length_endMark_pos delims sigil
        have := delims.length_opening_pos
        simp only
        omega

/--
All tags from `pos` on, if the marks stay as they are. Each tag begins where the one before it stops;
one that takes nothing from the text is the last.
-/
def all (text : Bytes) (marks : Marks) (pos : Nat) : List Tag :=
  match find? text marks pos with
  | none => []
  | some tag =>
    if _h : pos < tag.stop ∧ tag.stop ≤ text.length then
      tag :: all text marks tag.stop
    else
      [tag]
termination_by text.length - pos
decreasing_by
  omega

def closing (marks : Marks) (name : Bytes) : Bytes :=
  marks.opening ++ slash :: name ++ marks.closing

/--
The first closing tag for `name` at or after `pos`. It ends the section whatever stands in between, a
section of the same name included.
-/
def findClosing? (text : Bytes) (marks : Marks) (name : Bytes) (pos : Nat) : Option Span :=
  (Bytes.find? text (closing marks name) pos).map fun start =>
    ⟨start, start + (closing marks name).length⟩

theorem findClosing?_bounds {text : Bytes} {marks : Marks} {name : Bytes} {pos : Nat} {span : Span}
    (h : findClosing? text marks name pos = some span) :
    pos ≤ span.start ∧ span.start < span.stop ∧ span.stop ≤ text.length := by
  simp only [findClosing?, Option.map_eq_some_iff] at h
  obtain ⟨start, hstart, rfl⟩ := h
  have := Bytes.find?_bounds hstart
  simp only [closing, List.length_append, List.length_cons] at this ⊢
  omega

end Tag

end Mustache
