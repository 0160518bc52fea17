import Mustache.Proofs.Find
import Mustache.Proofs.Visit

/-!
This module contains the order of the linter's visits. The linter comes to each opening mark once, in the
order in which the marks stand in the template, so what is reported at an offset is what the one visit there
finds.
-/

namespace Mustache

namespace Lint

namespace Visit

/-- Where the visit finds the opening mark that it goes on to. A tag may begin there. -/
def opening? (visit : Visit) : Option Nat :=
  Bytes.find? visit.text visit.delims.opening visit.pos

theorem opening?_of_tag? {visit : Visit} {tag : Tag} (h : visit.tag? = some tag)
    : visit.opening? = some tag.start := by
  unfold tag? at h
  rw [Tag.find?_eq_some_iff] at h
  rcases h with ⟨_, hopening, _⟩
  exact hopening

theorem after_base (visit : Visit) (tag : Tag) : (visit.after tag).base = visit.base := by
  unfold after
  split <;> rfl

theorem after_text (visit : Visit) (tag : Tag) : (visit.after tag).text = visit.text := by
  unfold after
  split <;> rfl

theorem after_enclosing (visit : Visit) (tag : Tag) : (visit.after tag).enclosing = visit.enclosing := by
  unfold after
  split <;> rfl

theorem stop_le_after_pos (visit : Visit) (tag : Tag) : tag.stop ≤ (visit.after tag).pos := by
  unfold after
  split
  . exact Nat.le_refl _
  . next closing hclosing =>
    have := closing?_bounds hclosing
    dsimp only [leave]
    omega

/-- Induction on the way of the linter: into the body of a section, and on behind each tag. -/
theorem tour_induction {P : Visit → Prop} (last : ∀ visit : Visit, visit.tag? = none → P visit)
    (tag : ∀ (visit : Visit) (tag : Tag), visit.tag? = some tag →
      (∀ closing, visit.closing? tag = some closing → P (visit.enter tag closing)) →
        P (visit.after tag) → P visit)
    (visit : Visit)
    : P visit := by
  cases htag : visit.tag? with
  | none => exact last visit htag
  | some found =>
    have hbounds := Tag.find?_bounds htag
    have hafter := visit.stop_le_after_pos found
    have htext := visit.after_text found
    apply tag visit found htag
    . intro closing hclosing
      have := closing?_bounds hclosing
      have := Bytes.length_slice_le visit.text found.stop closing.start
      exact tour_induction last tag (visit.enter found closing)
    . exact tour_induction last tag (visit.after found)
termination_by visit.text.length - visit.pos
decreasing_by
  . dsimp only [enter]
    omega
  . rw [htext]
    omega

end Visit

theorem opening_bounds {visit later : Visit} {start : Nat} (hlater : later ∈ visits visit)
    (hstart : later.opening? = some start)
    : visit.base + visit.pos ≤ later.base + start
        ∧ later.base + start + later.delims.opening.length ≤ visit.base + visit.text.length := by
  have hown {visit : Visit} (hstart : visit.opening? = some start)
      : visit.base + visit.pos ≤ visit.base + start
        ∧ visit.base + start + visit.delims.opening.length ≤ visit.base + visit.text.length := by
    have := Bytes.find?_bounds hstart
    omega
  induction visit using Visit.tour_induction with
  | last visit hnone =>
    rw [visits_of_none hnone, List.mem_singleton] at hlater
    subst hlater
    exact hown hstart
  | tag visit found hfound ihEnter ihAfter =>
    have hbounds := Tag.find?_bounds hfound
    rcases (mem_visits_iff hfound).mp hlater with rfl | ⟨closing, hclosing, hmem⟩ | hmem
    . exact hown hstart
    . have hclosing' := Visit.closing?_bounds hclosing
      have hlength := Bytes.length_slice_le visit.text found.stop closing.start
      have := ihEnter closing hclosing hmem
      dsimp only [Visit.enter] at this
      omega
    . have := ihAfter hmem
      have hpos := visit.stop_le_after_pos found
      rw [Visit.after_base, Visit.after_text] at this
      omega

theorem visits_ordered (visit : Visit)
    : (visits visit).Pairwise fun earlier later => ∀ start start',
        earlier.opening? = some start → later.opening? = some start' →
          earlier.base + start < later.base + start' := by
  induction visit using Visit.tour_induction with
  | last visit hnone =>
    rw [visits_of_none hnone]
    apply List.pairwise_singleton
  | tag visit found hfound ihEnter ihAfter =>
    have hbounds := Tag.find?_bounds hfound
    have hopening := Visit.opening?_of_tag? hfound
    have hbase := visit.after_base found
    have hpos := visit.stop_le_after_pos found
    cases hclosing : visit.closing? found with
    | none =>
      rw [Visit.after_of_open hclosing] at ihAfter hbase hpos
      rw [visits_of_open hfound hclosing, List.pairwise_cons]
      refine ⟨?_, ihAfter⟩
      intro later hlater start start' hstart hstart'
      rw [hopening] at hstart
      injection hstart with hstart
      have := (opening_bounds hlater hstart').1
      omega
    | some closing =>
      have hclosing' := Visit.closing?_bounds hclosing
      have hlength := Bytes.length_slice_le visit.text found.stop closing.start
      rw [Visit.after_of_closed hclosing] at ihAfter hbase
      rw [visits_of_closed hfound hclosing, List.cons_append, List.pairwise_cons, List.pairwise_append]
      refine ⟨?_, ihEnter closing hclosing, ihAfter, ?_⟩
      . intro later hlater start start' hstart hstart'
        rw [hopening] at hstart
        injection hstart with hstart
        cases List.mem_append.mp hlater with
        | inl hmem =>
          have := (opening_bounds hmem hstart').1
          dsimp only [Visit.enter] at this
          omega
        | inr hmem =>
          have := (opening_bounds hmem hstart').1
          dsimp only [Visit.leave] at this
          omega
      . intro earlier hearlier later hlater start start' hstart hstart'
        have hfirst := (opening_bounds hearlier hstart).2
        have hsecond := (opening_bounds hlater hstart').1
        dsimp only [Visit.enter] at hfirst
        dsimp only [Visit.leave] at hsecond
        omega

theorem eq_of_offset_eq {visit first second : Visit} {tag tag' : Tag} (hfirst : first ∈ visits visit)
    (hsecond : second ∈ visits visit) (htag : first.tag? = some tag) (htag' : second.tag? = some tag')
    (hoffset : first.base + tag.start = second.base + tag'.start)
    : first = second := by
  have hordered := List.pairwise_iff_getElem.mp (visits_ordered visit)
  have hopening := Visit.opening?_of_tag? htag
  have hopening' := Visit.opening?_of_tag? htag'
  rcases List.getElem_of_mem hfirst with ⟨i, hi, rfl⟩
  rcases List.getElem_of_mem hsecond with ⟨j, hj, rfl⟩
  rcases Nat.lt_trichotomy i j with hlt | rfl | hgt
  . have := hordered i j hi hj hlt _ _ hopening hopening'
    omega
  . rfl
  . have := hordered j i hj hi hgt _ _ hopening' hopening
    omega

section

variable (template : Bytes) (delims : Delimiters) (enclosing : List Bytes) (name : Bytes)
  (closing? : Option Span) (stop : Nat)

theorem checkSection_nested_iff
    : checkSection template delims enclosing name closing? stop = some (.nestedSameName name)
        ↔
      name ∈ enclosing := by
  unfold checkSection
  split
  . next henclosing => simp [henclosing]
  . next henclosing =>
    simp only [henclosing, iff_false]
    split
    . simp
    . split <;> simp

theorem checkSection_missing_iff
    : (checkSection template delims enclosing name closing? stop = some (.unclosedSection name)
          ∨ checkSection template delims enclosing name closing? stop = some (.misnestedClose name))
        ↔
      name ∉ enclosing ∧ closing? = none := by
  unfold checkSection
  split
  . next henclosing => simp [henclosing]
  split
  . next hclosing => simp [Option.isSome_iff_ne_none.mp hclosing]
  . next henclosing hclosing =>
    rw [Option.not_isSome_iff_eq_none] at hclosing
    simp only [henclosing, hclosing, not_false_eq_true, and_self, iff_true]
    split
    . exact .inr rfl
    . exact .inl rfl

end

def Reports (template : Bytes) (offset : Nat) (problem : Problem) : Prop :=
  ∃ issue ∈ check template, issue.offset = offset ∧ issue.problem = problem

theorem reports_iff {template : Bytes} {offset : Nat} {problem : Problem}
    (hproblem : problem ≠ .unterminatedTag)
    : Reports template offset problem
        ↔
      ∃ visit ∈ tour template, ∃ tag, visit.tag? = some tag ∧ visit.base + tag.start = offset
        ∧ visit.problem? template tag = some problem := by
  have hwalk := walk_eq_visits template ⟨template, 0, .standard, [], 0⟩
  unfold Reports check
  rw [hwalk]
  simp only [List.mem_map, List.mem_flatMap]
  constructor
  . rintro ⟨_, ⟨finding, ⟨visit, hvisit, hfinding⟩, rfl⟩, rfl, hsame⟩
    cases htag : visit.tag? with
    | none =>
      -- Without a tag, all that can be reported is one that is not ended.
      unfold Visit.findings at hfinding
      rw [htag] at hfinding
      simp only [Option.mem_toList, Option.map_eq_some_iff] at hfinding
      rcases hfinding with ⟨start, _, rfl⟩
      exact absurd hsame.symm hproblem
    | some tag =>
      rw [Visit.findings_of_tag template htag, Option.mem_toList, Option.map_eq_some_iff] at hfinding
      rcases hfinding with ⟨found, hfound, rfl⟩
      exact ⟨visit, hvisit, tag, htag, rfl, hfound.trans (congrArg some hsame)⟩
  . rintro ⟨visit, hvisit, tag, htag, rfl, hfound⟩
    refine ⟨_, ⟨⟨problem, visit.base + tag.start⟩, ⟨visit, hvisit, ?_⟩, rfl⟩, rfl, rfl⟩
    rw [Visit.findings_of_tag template htag, hfound]
    simp

def Problem.section? (problem : Problem) : Option Bytes :=
  match problem with
  | .unclosedSection name => some name
  | .misnestedClose name => some name
  | .nestedSameName name => some name
  | _ => none

/--
What is reported about a section is reported at the tag that begins it. Either the section stands inside of
another one of its name, and that is the report, or its closing tag is missing.
-/
theorem Visit.section_of_problem? {template name : Bytes} {visit : Visit} {tag : Tag} {problem : Problem}
    (h : visit.problem? template tag = some problem) (hname : problem.section? = some name)
    : (tag.sigil = Step.hash ∨ tag.sigil = Step.caret) ∧ name = tag.body.drop 1
        ∧ (problem = .nestedSameName name ∧ name ∈ visit.enclosing ∨ visit.closing? tag = none) := by
  unfold problem? at h
  dsimp only at h
  split at h
  . next hsection =>
    refine ⟨hsection, ?_⟩
    unfold checkSection at h
    split at h
    . next henclosing =>
      rw [← Option.some.inj h] at hname ⊢
      rw [← Option.some.inj hname]
      exact ⟨rfl, .inl ⟨rfl, henclosing⟩⟩
    split at h
    . contradiction
    . next hclosing =>
      rw [Option.not_isSome_iff_eq_none] at hclosing
      refine ⟨?_, .inr hclosing⟩
      split at h
      all_goals
        rw [← Option.some.inj h] at hname
        exact (Option.some.inj hname).symm
  split at h
  . rw [← Option.some.inj h] at hname
    contradiction
  split at h
  . split at h
    . contradiction
    . rw [← Option.some.inj h] at hname
      contradiction
  . contradiction

end Lint

end Mustache
