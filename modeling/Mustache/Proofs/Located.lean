import Mathlib.Data.List.Infix
import Mustache.Proofs.Tour

/-!
This module contains where in a template the linter reports problems: at opening marks, at most once at each,
and in the order in which they stand there. The offsets are those of the whole template, also for what is
found in the body of a section.
-/

namespace Mustache

namespace Lint

namespace Visit

theorem opening?_of_mem_findings {template : Bytes} {visit : Visit} {finding : Finding}
    (h : finding ∈ visit.findings template)
    : ∃ start, visit.opening? = some start ∧ finding.offset = visit.base + start := by
  cases htag : visit.tag? with
  | none =>
    unfold findings at h
    rw [htag, Option.mem_toList, Option.map_eq_some_iff] at h
    rcases h with ⟨start, hstart, rfl⟩
    exact ⟨start, hstart, rfl⟩
  | some tag =>
    rw [findings_of_tag template htag, Option.mem_toList, Option.map_eq_some_iff] at h
    rcases h with ⟨problem, _, rfl⟩
    exact ⟨tag.start, opening?_of_tag? htag, rfl⟩

theorem pairwise_findings (template : Bytes) (visit : Visit) (R : Finding → Finding → Prop)
    : (visit.findings template).Pairwise R := by
  have htoList (finding? : Option Finding) : finding?.toList.Pairwise R := by
    cases finding? with
    | none => exact .nil
    | some finding => exact List.pairwise_singleton R finding
  unfold findings
  split <;> apply htoList

end Visit

theorem text_prefix_of_mem_visits {template : Bytes} {visit later : Visit} (hlater : later ∈ visits visit)
    (h : visit.text <+: template.drop visit.base)
    : later.text <+: template.drop later.base := by
  induction visit using Visit.tour_induction with
  | last visit hnone =>
    rw [visits_of_none hnone, List.mem_singleton] at hlater
    rw [hlater]
    exact h
  | tag visit found hfound ihEnter ihAfter =>
    rcases (mem_visits_iff hfound).mp hlater with rfl | ⟨closing, hclosing, hmem⟩ | hmem
    . exact h
    . apply ihEnter closing hclosing hmem
      dsimp only [Visit.enter, Bytes.slice]
      rw [← List.drop_drop]
      exact (List.take_prefix _ _).trans (h.drop found.stop)
    . apply ihAfter hmem
      rw [Visit.after_text, Visit.after_base]
      exact h

/--
An issue is reported where the linter, in the text of a section or of the whole template, comes to an opening
mark. Its offset is that of the mark in the template, whatever text the mark was found in.
-/
structure Located (template : Bytes) (issue : Issue) : Prop where
  within : issue.offset < template.length
  line : issue.line = (template.take issue.offset).count Bytes.newline + 1
  mark : ∃ visit ∈ tour template, visit.text <+: template.drop visit.base
    ∧ ⟨issue.problem, issue.offset⟩ ∈ visit.findings template
    ∧ (∃ start, visit.opening? = some start ∧ issue.offset = visit.base + start)
    ∧ visit.delims.opening <+: template.drop issue.offset

theorem check_eq_tour (template : Bytes)
    : check template
        =
      ((tour template).flatMap (Visit.findings template)).map fun finding =>
        ⟨finding.problem, finding.offset, lineAt template finding.offset⟩ := by
  have hwalk := walk_eq_visits template ⟨template, 0, .standard, [], 0⟩
  unfold check tour
  rw [hwalk]

theorem lineAt_mono (template : Bytes) {offset offset' : Nat} (h : offset ≤ offset')
    : lineAt template offset ≤ lineAt template offset' := by
  have hprefix : template.take offset <+: template.take offset' := List.take_prefix_take_left h
  have := hprefix.sublist.count_le Bytes.newline
  unfold lineAt
  omega

theorem located_of_mem_check {template : Bytes} {issue : Issue} (h : issue ∈ check template)
    : Located template issue := by
  rw [check_eq_tour, List.mem_map] at h
  rcases h with ⟨finding, hfinding, rfl⟩
  rw [List.mem_flatMap] at hfinding
  rcases hfinding with ⟨visit, hvisit, hfinding⟩
  rcases Visit.opening?_of_mem_findings hfinding with ⟨start, hstart, hoffset⟩
  have htext := text_prefix_of_mem_visits hvisit (List.prefix_refl template)
  have hoccurs : visit.delims.opening <+: template.drop finding.offset := by
    have hfirst := hstart
    unfold Visit.opening? at hfirst
    rw [Bytes.find?_eq_some_iff] at hfirst
    rw [hoffset, ← List.drop_drop]
    exact hfirst.2.2.1.trans (htext.drop start)
  constructor
  . have := visit.delims.length_opening_pos
    have := Bytes.add_length_le_of_occurs visit.delims.opening_ne_nil hoccurs
    dsimp only
    omega
  . rfl
  . exact ⟨visit, hvisit, htext, hfinding, ⟨start, hstart, hoffset⟩, hoccurs⟩

/--
The issues of a template stand in the order of their offsets, no two of them at the same one, and each is
where an opening mark is that was in effect there.
-/
theorem check_ordered (template : Bytes)
    : ((check template).Pairwise fun earlier later =>
          earlier.offset < later.offset ∧ earlier.line ≤ later.line)
        ∧ ∀ issue ∈ check template, Located template issue := by
  constructor
  . rw [check_eq_tour, List.pairwise_map]
    have hoffsets : ((tour template).flatMap (Visit.findings template)).Pairwise fun earlier later =>
        earlier.offset < later.offset := by
      rw [List.pairwise_flatMap]
      constructor
      . intro visit _
        apply Visit.pairwise_findings
      . apply (visits_ordered _).imp
        intro earlier later hordered finding hfinding finding' hfinding'
        rcases Visit.opening?_of_mem_findings hfinding with ⟨start, hstart, hoffset⟩
        rcases Visit.opening?_of_mem_findings hfinding' with ⟨start', hstart', hoffset'⟩
        rw [hoffset, hoffset']
        exact hordered start start' hstart hstart'
    apply hoffsets.imp
    intro earlier later hlt
    exact ⟨hlt, lineAt_mono template (Nat.le_of_lt hlt)⟩
  . intro issue hissue
    exact located_of_mem_check hissue

theorem check_ordered_inside_body
    : let template := Bytes.ofAscii "{{#a}}\n{{/b}}{{=<% %>=}}\n<%c{{/a}}{{^d}}"
      let issue : Issue := ⟨.unterminatedTag, 25, 3⟩
      issue ∈ check template ∧ Located template issue := by
  intro template issue
  have hissue : issue ∈ check template := by decide +kernel
  exact ⟨hissue, (check_ordered template).2 issue hissue⟩

end Lint

end Mustache
