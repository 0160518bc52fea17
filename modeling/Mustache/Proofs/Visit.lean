import Mustache.Lint

/-!
This module contains the way of the linter through a template as a list of visits. What the linter
reports is what it finds at each of them, in order.
-/

namespace Mustache.Lint

/--
A place where the linter looks for a tag: the offset `pos` of a text that stands in the template from
`base` on, inside of sections with the names `enclosing`.
-/
structure Visit where
  text : Bytes
  base : Nat
  delims : Delimiters
  enclosing : List Bytes
  pos : Nat

namespace Visit

def tag? (visit : Visit) : Option Tag :=
  Tag.find? visit.text visit.delims.toMarks visit.pos

/-- The closing tag, if the tag begins a section that has one. -/
def closing? (visit : Visit) (tag : Tag) : Option Span :=
  if tag.sigil = Step.hash ∨ tag.sigil = Step.caret then
    Tag.findClosing? visit.text visit.delims.toMarks (tag.body.drop 1) tag.stop
  else
    none

/-- The delimiters that the tag sets, if it is a command that sets any. -/
def command? (tag : Tag) : Option Delimiters :=
  if tag.sigil = Delimiters.equals then Delimiters.ofCommand? tag.body else none

def problem? (template : Bytes) (visit : Visit) (tag : Tag) : Option Problem :=
  let name := tag.body.drop 1
  if tag.sigil = Step.hash ∨ tag.sigil = Step.caret then
    checkSection template visit.delims visit.enclosing name (visit.closing? tag) (visit.base + tag.stop)
  else if tag.sigil = Tag.slash then
    some (.strayClose name)
  else if tag.sigil = Delimiters.equals then
    if (command? tag).isSome then none else some .malformedDelimiters
  else
    none

/-- What is reported at a visit. -/
def findings (template : Bytes) (visit : Visit) : List Finding :=
  match visit.tag? with
  | none =>
    ((Bytes.find? visit.text visit.delims.opening visit.pos).map fun start =>
      ⟨.unterminatedTag, visit.base + start⟩).toList
  | some tag =>
    ((visit.problem? template tag).map fun problem => ⟨problem, visit.base + tag.start⟩).toList

def enter (visit : Visit) (tag : Tag) (closing : Span) : Visit where
  text := Bytes.slice visit.text tag.stop closing.start
  base := visit.base + tag.stop
  delims := visit.delims
  enclosing := tag.body.drop 1 :: visit.enclosing
  pos := 0

def goOn (visit : Visit) (tag : Tag) : Visit :=
  { visit with delims := (command? tag).getD visit.delims, pos := tag.stop }

def leave (visit : Visit) (closing : Span) : Visit :=
  { visit with pos := closing.stop }

def after (visit : Visit) (tag : Tag) : Visit :=
  match visit.closing? tag with
  | none => visit.goOn tag
  | some closing => visit.leave closing

theorem after_of_open {visit : Visit} {tag : Tag} (h : visit.closing? tag = none)
    : visit.after tag = visit.goOn tag := by
  unfold after
  rw [h]

theorem after_of_closed {visit : Visit} {tag : Tag} {closing : Span} (h : visit.closing? tag = some closing)
    : visit.after tag = visit.leave closing := by
  unfold after
  rw [h]

theorem closing?_of_section {tag : Tag} (visit : Visit)
    (h : tag.sigil = Step.hash ∨ tag.sigil = Step.caret)
    : visit.closing? tag
        =
      Tag.findClosing? visit.text visit.delims.toMarks (tag.body.drop 1) tag.stop := by
  unfold closing?
  rw [if_pos h]

theorem closing?_of_not_section {tag : Tag} (visit : Visit)
    (h : ¬ (tag.sigil = Step.hash ∨ tag.sigil = Step.caret))
    : visit.closing? tag = none := by
  unfold closing?
  rw [if_neg h]

theorem command?_of_section {tag : Tag} (h : tag.sigil = Step.hash ∨ tag.sigil = Step.caret)
    : command? tag = none := by
  unfold command?
  cases h with
  | inl h => rw [h, if_neg (by decide)]
  | inr h => rw [h, if_neg (by decide)]

theorem findings_of_tag {visit : Visit} {tag : Tag} (template : Bytes) (h : visit.tag? = some tag)
    : visit.findings template
        =
      ((visit.problem? template tag).map fun problem => ⟨problem, visit.base + tag.start⟩).toList := by
  unfold findings
  rw [h]

theorem closing?_bounds {visit : Visit} {tag : Tag} {closing : Span}
    (h : visit.closing? tag = some closing)
    : tag.stop ≤ closing.start ∧ closing.start < closing.stop ∧ closing.stop ≤ visit.text.length := by
  unfold closing? at h
  split at h
  . exact Tag.findClosing?_bounds h
  . contradiction

end Visit

def visits (visit : Visit) : List Visit :=
  match _htag : visit.tag? with
  | none => [visit]
  | some tag =>
    match _hclosing : visit.closing? tag with
    | none => visit :: visits (visit.goOn tag)
    | some closing => visit :: visits (visit.enter tag closing) ++ visits (visit.leave closing)
termination_by visit.text.length - visit.pos
decreasing_by
  all_goals have := Tag.find?_bounds _htag
  . dsimp [Visit.goOn]
    omega
  . have := Visit.closing?_bounds _hclosing
    have := Bytes.length_slice_le visit.text tag.stop closing.start
    dsimp [Visit.enter]
    omega
  . have := Visit.closing?_bounds _hclosing
    dsimp [Visit.leave]
    omega

theorem visits_of_none {visit : Visit} (h : visit.tag? = none) : visits visit = [visit] := by
  rw [visits]
  split
  . rfl
  . next htag =>
    rw [h] at htag
    contradiction

theorem visits_of_open {visit : Visit} {tag : Tag} (htag : visit.tag? = some tag)
    (hclosing : visit.closing? tag = none)
    : visits visit = visit :: visits (visit.goOn tag) := by
  rw [visits]
  split
  . next h =>
    rw [htag] at h
    contradiction
  . next h =>
    rw [htag, Option.some.injEq] at h
    subst h
    split
    . rfl
    . next h =>
      rw [hclosing] at h
      contradiction

theorem visits_of_closed {visit : Visit} {tag : Tag} {closing : Span} (htag : visit.tag? = some tag)
    (hclosing : visit.closing? tag = some closing)
    : visits visit
        =
      visit :: visits (visit.enter tag closing) ++ visits (visit.leave closing) := by
  rw [visits]
  split
  . next h =>
    rw [htag] at h
    contradiction
  . next h =>
    rw [htag, Option.some.injEq] at h
    subst h
    split
    . next h =>
      rw [hclosing] at h
      contradiction
    . next h =>
      rw [hclosing, Option.some.injEq] at h
      subst h
      rfl

theorem mem_visits (visit : Visit) : visit ∈ visits visit := by
  rw [visits]
  split
  . simp
  . split <;> simp

theorem mem_visits_iff {visit later : Visit} {tag : Tag} (htag : visit.tag? = some tag)
    : later ∈ visits visit
        ↔
      later = visit
        ∨ (∃ closing, visit.closing? tag = some closing ∧ later ∈ visits (visit.enter tag closing))
        ∨ later ∈ visits (visit.after tag) := by
  cases hclosing : visit.closing? tag with
  | none =>
    rw [visits_of_open htag hclosing, Visit.after_of_open hclosing]
    simp
  | some closing =>
    rw [visits_of_closed htag hclosing, Visit.after_of_closed hclosing]
    simp

theorem visits_after_subset {visit : Visit} {tag : Tag} (htag : visit.tag? = some tag)
    : visits (visit.after tag) ⊆ visits visit := by
  intro later hlater
  rw [mem_visits_iff htag]
  exact .inr (.inr hlater)

theorem visits_enter_subset {visit : Visit} {tag : Tag} {closing : Span} (htag : visit.tag? = some tag)
    (hclosing : visit.closing? tag = some closing)
    : visits (visit.enter tag closing) ⊆ visits visit := by
  intro later hlater
  rw [mem_visits_iff htag]
  exact .inr (.inl ⟨closing, hclosing, hlater⟩)

theorem walk_eq_visits (template : Bytes) (visit : Visit)
    : walk template visit.text visit.base visit.delims visit.enclosing visit.pos
        =
      (visits visit).flatMap (Visit.findings template) := by
  cases htag : visit.tag? with
  | none =>
    have hfind := htag
    unfold Visit.tag? at hfind
    rw [visits_of_none htag, List.flatMap_singleton, walk]
    unfold Visit.findings
    rw [htag]
    dsimp
    split
    . split
      . next hopening => rw [hopening]; rfl
      . next hopening => rw [hopening]; rfl
    . next h =>
      rw [hfind] at h
      contradiction
  | some tag =>
    have hbounds := Tag.find?_bounds htag
    have hfind := htag
    unfold Visit.tag? at hfind
    rw [walk]
    split
    . next h =>
      rw [hfind] at h
      contradiction
    . next h =>
      rw [hfind, Option.some.injEq] at h
      subst h
      dsimp
      split
      . next hsection =>
        have hclosing := visit.closing?_of_section hsection
        split
        . next hnone =>
          rw [hnone] at hclosing
          have ih := walk_eq_visits template (visit.goOn tag)
          rw [visits_of_open htag hclosing, List.flatMap_cons, ← ih, Visit.findings_of_tag _ htag]
          unfold Visit.problem? Visit.goOn
          rw [Visit.command?_of_section hsection, hclosing]
          dsimp
          rw [if_pos hsection]
        . next closing hsome =>
          rw [hsome] at hclosing
          have := Visit.closing?_bounds hclosing
          have := Bytes.length_slice_le visit.text tag.stop closing.start
          have ih := walk_eq_visits template (visit.enter tag closing)
          have ih' := walk_eq_visits template (visit.leave closing)
          rw [visits_of_closed htag hclosing, List.flatMap_append, List.flatMap_cons, ← ih, ← ih',
            Visit.findings_of_tag _ htag]
          unfold Visit.problem? Visit.enter Visit.leave
          rw [hclosing]
          dsimp
          rw [if_pos hsection]
      . next hsection =>
        have ih := walk_eq_visits template (visit.goOn tag)
        rw [visits_of_open htag (visit.closing?_of_not_section hsection), List.flatMap_cons, ← ih,
          Visit.findings_of_tag _ htag]
        unfold Visit.problem? Visit.goOn Visit.command?
        rw [if_neg hsection]
        dsimp
        split
        . next hslash =>
          rw [hslash, if_neg (by decide)]
          rfl
        . split
          . split
            . next hcommand =>
              rw [hcommand]
              rfl
            . next hcommand =>
              rw [hcommand]
              rfl
          . rfl
termination_by visit.text.length - visit.pos
decreasing_by
  all_goals dsimp [Visit.goOn, Visit.enter, Visit.leave]
  all_goals omega

def tour (template : Bytes) : List Visit :=
  visits ⟨template, 0, .standard, [], 0⟩

end Mustache.Lint
