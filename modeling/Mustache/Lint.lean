import Mustache.Step
import Mustache.Text.Utf8

/-!
This module contains the linter. A render passes over what is wrong in a template; the linter goes
through the same tags and reports those spots.
-/

namespace Mustache.Lint

inductive Problem where
  | unterminatedTag
  | unclosedSection (name : Bytes)
  /-- A section whose closing tag stands after the end of the section around it. -/
  | misnestedClose (name : Bytes)
  | nestedSameName (name : Bytes)
  | strayClose (name : Bytes)
  | malformedDelimiters
  deriving DecidableEq

namespace Problem

def code : Problem → String
  | unterminatedTag => "unterminated_tag"
  | unclosedSection _ => "unclosed_section"
  | misnestedClose _ => "misnested_close"
  | nestedSameName _ => "nested_same_name"
  | strayClose _ => "stray_close"
  | malformedDelimiters => "malformed_delimiters"

def message : Problem → String
  | unterminatedTag => "Tag is never closed"
  | unclosedSection name => "Section '" ++ Utf8.decode name ++ "' has no closing tag"
  | misnestedClose name =>
    "Section '" ++ Utf8.decode name ++ "' is closed after its enclosing section ends"
  | nestedSameName name =>
    "Section '" ++ Utf8.decode name ++ "' is nested inside a section of the same name; " ++
      "the inner close tag ends the outer section"
  | strayClose name => "Close tag for '" ++ Utf8.decode name ++ "' has no opening section"
  | malformedDelimiters => "Malformed set-delimiter tag is ignored"

end Problem

structure Issue where
  problem : Problem
  offset : Nat
  line : Nat
  deriving DecidableEq

def lineAt (template : Bytes) (offset : Nat) : Nat :=
  (template.take offset).count Bytes.newline + 1

structure Finding where
  problem : Problem
  offset : Nat
  deriving DecidableEq

def checkSection (template : Bytes) (delims : Delimiters) (enclosing : List Bytes) (name : Bytes)
    (closing? : Option Span) (stop : Nat) : Option Problem :=
  if name ∈ enclosing then
    some (.nestedSameName name)
  else if closing?.isSome then
    none
  else if (Tag.findClosing? template delims.toMarks name stop).isSome then
    some (.misnestedClose name)
  else
    some (.unclosedSection name)

/--
Goes through a text that stands in the template from `base` on, inside of sections with the names
`enclosing`. The body of a section is a text of its own: delimiters set in it end with it.
-/
def walk (template text : Bytes) (base : Nat) (delims : Delimiters) (enclosing : List Bytes)
    (pos : Nat) : List Finding :=
  match _htag : Tag.find? text delims.toMarks pos with
  | none =>
    match Bytes.find? text delims.opening pos with
    | none => []
    | some start => [⟨.unterminatedTag, base + start⟩]
  | some tag =>
    let name := tag.body.drop 1
    let report (problem? : Option Problem) : List Finding :=
      (problem?.map fun problem => ⟨problem, base + tag.start⟩).toList
    if tag.sigil = Step.hash ∨ tag.sigil = Step.caret then
      match _hclosing : Tag.findClosing? text delims.toMarks name tag.stop with
      | none =>
        report (checkSection template delims enclosing name none (base + tag.stop)) ++
          walk template text base delims enclosing tag.stop
      | some closing =>
        report (checkSection template delims enclosing name (some closing) (base + tag.stop)) ++
          walk template (Bytes.slice text tag.stop closing.start) (base + tag.stop) delims
            (name :: enclosing) 0 ++
          walk template text base delims enclosing closing.stop
    else if tag.sigil = Tag.slash then
      report (some (.strayClose name)) ++ walk template text base delims enclosing tag.stop
    else if tag.sigil = Delimiters.equals then
      match Delimiters.ofCommand? tag.body with
      | none =>
        report (some .malformedDelimiters) ++ walk template text base delims enclosing tag.stop
      | some new => walk template text base new enclosing tag.stop
    else
      walk template text base delims enclosing tag.stop
termination_by text.length - pos
decreasing_by
  all_goals have hbounds := Tag.find?_bounds _htag
  . omega
  . have := Bytes.length_slice_le text tag.stop closing.start
    have := Tag.findClosing?_bounds _hclosing
    omega
  . have := Tag.findClosing?_bounds _hclosing
    omega
  . omega
  . omega
  . omega
  . omega

def check (template : Bytes) : List Issue :=
  (walk template template 0 .standard [] 0).map fun finding =>
    ⟨finding.problem, finding.offset, lineAt template finding.offset⟩

end Mustache.Lint
