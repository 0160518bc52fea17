import Mustache.Proofs.Abreast
import Mustache.Proofs.Invariant
import Mustache.Proofs.Names
import Mustache.Proofs.Tour

/-!
This module contains what complaints of the linter about sections mean for a render. The linter reports
the sections that a render drops, as their closing tag does not stand in the text around them. It also
reports sections inside of others of the same name, which a render drops too unless the delimiters have
changed in between.
-/

namespace Mustache

/--
A place where a render looks for a tag: the offset `pos` of a text that stands in the template from `base`
on, inside of sections with the names and the delimiters of their tags in `enclosing`.
-/
structure Place where
  base : Nat
  text : Bytes
  delims : Delimiters
  enclosing : List (Bytes × Delimiters)
  pos : Nat

namespace Place

def step? (place : Place) : Option Step :=
  Step.next? place.text place.delims place.pos

def resume (place : Place) (step : Step) : Place :=
  { place with delims := step.next, pos := step.resume }

def enter (place : Place) (step : Step) (name body : Bytes) : Place where
  base := place.base + Bytes.skipNewline place.text step.tag.stop
  text := body
  delims := place.delims
  enclosing := (name, place.delims) :: place.enclosing
  pos := 0

/-- The places that a render of the template comes to, if it renders all sections. -/
inductive Reached (template : Bytes) : Place → Prop where
  | start : Reached template ⟨0, template, .standard, [], 0⟩
  | resume {place : Place} {step : Step} (h : Reached template place) (hstep : place.step? = some step)
    : Reached template (place.resume step)
  | enter {place : Place} {step : Step} {inverted : Bool} {name body : Bytes} (h : Reached template place)
    (hstep : place.step? = some step) (haction : step.action = .enter inverted name body)
    : Reached template (place.enter step name body)

variable {place : Place} {template : Bytes}

theorem Reached.closing_not_infix (h : place.Reached template) {name : Bytes} {delims : Delimiters}
    (henclosing : (name, delims) ∈ place.enclosing)
    : ¬ Tag.closing delims.toMarks name <:+: place.text := by
  induction h with
  | start => contradiction
  | resume _ _ ih => exact ih henclosing
  | enter _ hstep haction ih =>
    -- The inmost section ends its body there, and the bodies around it are ended by the same argument.
    dsimp only [Place.enter] at henclosing
    cases List.mem_cons.mp henclosing with
    | inl heq =>
      injection heq with hname hdelims
      rw [hname, hdelims]
      exact Step.closing_not_infix_of_next? hstep haction
    | inr hmem =>
      intro hoccurs
      exact ih hmem (hoccurs.trans (Step.infix_of_next? hstep haction))

end Place

namespace Lint

structure Stands (place : Place) (visit : Visit) (count : Nat) : Prop extends
    Abreast place.text place.delims place.pos visit count where
  base : visit.base + count = place.base
  enclosing : visit.enclosing = place.enclosing.map Prod.fst

namespace Stands

variable {place : Place} {visit : Visit} {count : Nat} {step : Step}

theorem resume (h : Stands place visit count) (hstep : place.step? = some step)
    : Stands (place.resume step) (visit.after (step.tag.shift count)) count where
  toAbreast := h.toAbreast.resume hstep
  base := by
    rw [Visit.after_base]
    exact h.base
  enclosing := by
    rw [Visit.after_enclosing]
    exact h.enclosing

theorem enter {inverted : Bool} {name body : Bytes} (h : Stands place visit count)
    (hstep : place.step? = some step) (haction : step.action = .enter inverted name body)
    : ∃ closing, visit.closing? (step.tag.shift count) = some closing
        ∧ ∃ skipped,
          Stands (place.enter step name body) (visit.enter (step.tag.shift count) closing) skipped := by
  rcases h.toAbreast.enter hstep haction with ⟨closing, hclosing, hbody⟩
  have hsection := Step.next?_section? hstep (Step.section?_of_enter haction)
  refine ⟨closing, hclosing, Bytes.skipNewline place.text step.tag.stop - step.tag.stop, ?_⟩
  exact {
    toAbreast := hbody
    base := by
      have := Bytes.le_skipNewline place.text step.tag.stop
      have := h.base
      dsimp only [Visit.enter, Place.enter, Tag.shift]
      omega
    enclosing := by
      dsimp only [Visit.enter, Place.enter]
      rw [Tag.shift_body, ← hsection.2, h.enclosing]
      rfl
  }

theorem action_of_closing {closing : Span} (h : Stands place visit count) (hstep : place.step? = some step)
    (hclosing : visit.closing? (step.tag.shift count) = some closing)
    : ∃ inverted name body, step.action = .enter inverted name body := by
  cases Decidable.em (step.tag.sigil = Step.hash ∨ step.tag.sigil = Step.caret) with
  | inl hsection =>
    rw [h.toAbreast.closing?_eq hsection, Option.map_eq_some_iff] at hclosing
    rcases hclosing with ⟨span, hspan, _⟩
    rw [Step.next?_of_section hstep hsection]
    unfold Step.ofSection
    dsimp only
    rw [hspan]
    exact ⟨_, _, _, rfl⟩
  | inr hsection =>
    have hnone : visit.closing? (step.tag.shift count) = none := visit.closing?_of_not_section hsection
    rw [hnone] at hclosing
    contradiction

end Stands

section

variable {template : Bytes}

theorem stands_start (hopening : ∀ new ∈ introduced template, new.opening.head? ≠ some Bytes.newline)
    : Stands ⟨0, template, .standard, [], 0⟩ ⟨template, 0, .standard, [], 0⟩ 0 where
  toAbreast := abreast_start hopening
  base := rfl
  enclosing := rfl

theorem exists_visit_of_reached {place : Place}
    (hopening : ∀ new ∈ introduced template, new.opening.head? ≠ some Bytes.newline)
    (h : place.Reached template)
    : ∃ visit count, Stands place visit count ∧ visits visit ⊆ tour template := by
  induction h with
  | start => exact ⟨_, 0, stands_start hopening, List.Subset.refl _⟩
  | resume _ hstep ih =>
    rcases ih with ⟨visit, count, hstands, hsubset⟩
    have hafter := visits_after_subset (hstands.tag?_of_next? hstep)
    exact ⟨_, count, hstands.resume hstep, List.Subset.trans hafter hsubset⟩
  | enter _ hstep haction ih =>
    rcases ih with ⟨visit, count, hstands, hsubset⟩
    rcases hstands.enter hstep haction with ⟨closing, hclosing, skipped, hbody⟩
    have henter := visits_enter_subset (hstands.tag?_of_next? hstep) hclosing
    exact ⟨_, skipped, hbody, List.Subset.trans henter hsubset⟩

theorem exists_reached_of_mem_visits {visit later : Visit} {place : Place} {count : Nat}
    (hreached : place.Reached template) (hstands : Stands place visit count) (hlater : later ∈ visits visit)
    : ∃ place' count', place'.Reached template ∧ Stands place' later count' := by
  induction visit using Visit.tour_induction generalizing place count with
  | last visit hnone =>
    rw [visits_of_none hnone, List.mem_singleton] at hlater
    rw [hlater]
    exact ⟨place, count, hreached, hstands⟩
  | tag visit found hfound ihEnter ihAfter =>
    rcases hstands.step_of_tag? hfound with ⟨step, hstep, rfl⟩
    rcases (mem_visits_iff hfound).mp hlater with rfl | ⟨closing, hclosing, hmem⟩ | hmem
    . exact ⟨place, count, hreached, hstands⟩
    . rcases hstands.action_of_closing hstep hclosing with ⟨inverted, name, body, haction⟩
      rcases hstands.enter hstep haction with ⟨closing', hclosing', skipped, hbody⟩
      rw [hclosing] at hclosing'
      injection hclosing' with hclosing'
      rw [← hclosing'] at hbody
      exact ihEnter closing hclosing (.enter hreached hstep haction) hbody hmem
    . exact ihAfter (.resume hreached hstep) (hstands.resume hstep) hmem

end

namespace Stands

variable {template name : Bytes} {place : Place} {visit : Visit} {count : Nat} {step : Step}

theorem reports_iff (problem : Problem) (h : Stands place visit count) (hvisit : visit ∈ tour template)
    (hstep : place.step? = some step) (hproblem : problem ≠ .unterminatedTag)
    : Reports template (place.base + step.tag.start) problem
        ↔
      visit.problem? template (step.tag.shift count) = some problem := by
  have htag := h.tag?_of_next? hstep
  have hoffset : visit.base + (step.tag.shift count).start = place.base + step.tag.start := by
    have := h.base
    dsimp only [Tag.shift]
    omega
  rw [Lint.reports_iff hproblem]
  constructor
  . rintro ⟨other, hother, tag, hfound, hsame, hreported⟩
    -- The linter comes to each tag once, so no other visit reports anything at this offset.
    have heq := eq_of_offset_eq hother hvisit hfound htag (hsame.trans hoffset.symm)
    subst heq
    rw [htag] at hfound
    injection hfound with hfound
    rwa [hfound]
  . intro hreported
    exact ⟨visit, hvisit, _, htag, hoffset, hreported⟩

theorem problem?_eq (h : Stands place visit count) (hstep : place.step? = some step)
    (hname : step.section? = some name)
    : visit.problem? template (step.tag.shift count)
        =
      checkSection template place.delims (place.enclosing.map Prod.fst) name
        ((Tag.findClosing? place.text place.delims.toMarks name step.tag.stop).map (Span.shift count))
        (place.base + step.tag.stop) := by
  have hsection := Step.next?_section? hstep hname
  have hclosing := h.closing?_eq hsection.1
  have hstop : visit.base + (step.tag.shift count).stop = place.base + step.tag.stop := by
    have := h.base
    dsimp only [Tag.shift]
    omega
  unfold Visit.problem?
  dsimp only
  rw [Tag.shift_sigil, Tag.shift_body, if_pos hsection.1, hclosing, hstop, ← hsection.2, h.delims_eq,
    h.enclosing]

end Stands

/-- What the linter reports about the tag of a section, and what a render does there. -/
structure Judged (template : Bytes) (place : Place) (step : Step) (name : Bytes) : Prop where
  drops_iff : step.Drops name ↔ Tag.findClosing? place.text place.delims.toMarks name step.tag.stop = none
  missing_iff : Reports template (place.base + step.tag.start) (.unclosedSection name)
      ∨ Reports template (place.base + step.tag.start) (.misnestedClose name)
    ↔ name ∉ place.enclosing.map Prod.fst ∧ step.Drops name
  nested_iff : Reports template (place.base + step.tag.start) (.nestedSameName name)
    ↔ name ∈ place.enclosing.map Prod.fst
  -- The first closing tag ends the outer section, so none is left for the inner one.
  same_marks : (name, place.delims) ∈ place.enclosing → step.Drops name

theorem judged_of_reached {template name : Bytes} {place : Place} {step : Step}
    (hopening : ∀ new ∈ introduced template, new.opening.head? ≠ some Bytes.newline)
    (hreached : place.Reached template) (hstep : place.step? = some step) (hname : step.section? = some name)
    : Judged template place step name := by
  rcases exists_visit_of_reached hopening hreached with ⟨visit, count, hstands, hsubset⟩
  have hvisit := hsubset (mem_visits visit)
  have hdrops := Step.next?_drops_iff hstep hname
  constructor
  . exact hdrops
  . rw [hstands.reports_iff (.unclosedSection name) hvisit hstep nofun,
      hstands.reports_iff (.misnestedClose name) hvisit hstep nofun, hstands.problem?_eq hstep hname,
      checkSection_missing_iff, Option.map_eq_none_iff, hdrops]
  . rw [hstands.reports_iff (.nestedSameName name) hvisit hstep nofun, hstands.problem?_eq hstep hname,
      checkSection_nested_iff]
  . intro henclosing
    rw [hdrops]
    exact Tag.findClosing?_eq_none _ (hreached.closing_not_infix henclosing)

theorem exists_visit_of_issue {template name : Bytes} {issue : Issue} (hissue : issue ∈ check template)
    (hname : issue.problem.section? = some name)
    : ∃ visit ∈ tour template, ∃ tag, visit.tag? = some tag ∧ visit.base + tag.start = issue.offset
        ∧ (tag.sigil = Step.hash ∨ tag.sigil = Step.caret) ∧ name = tag.body.drop 1
        ∧ (issue.problem = .nestedSameName name ∧ name ∈ visit.enclosing ∨ visit.closing? tag = none) := by
  have hreports : Reports template issue.offset issue.problem := ⟨issue, hissue, rfl, rfl⟩
  have hproblem : issue.problem ≠ .unterminatedTag := by
    intro heq
    rw [heq] at hname
    contradiction
  rcases (reports_iff hproblem).mp hreports with ⟨visit, hvisit, tag, htag, hoffset, hfound⟩
  exact ⟨visit, hvisit, tag, htag, hoffset, Visit.section_of_problem? hfound hname⟩

theorem exists_place_of_issue {template name : Bytes} {issue : Issue}
    (hopening : ∀ new ∈ introduced template, new.opening.head? ≠ some Bytes.newline)
    (hissue : issue ∈ check template) (hname : issue.problem.section? = some name)
    : ∃ (place : Place) (step : Step), place.Reached template ∧ place.step? = some step
        ∧ step.section? = some name ∧ place.base + step.tag.start = issue.offset := by
  rcases exists_visit_of_issue hissue hname with ⟨visit, hvisit, tag, htag, hoffset, hsection, hbody, _⟩
  have hstart := stands_start hopening
  rcases exists_reached_of_mem_visits .start hstart hvisit with ⟨place, count, hreached, hstands⟩
  rcases hstands.step_of_tag? htag with ⟨step, hstep, rfl⟩
  refine ⟨place, step, hreached, hstep, ?_, ?_⟩
  . rw [Step.next?_of_section hstep hsection, Step.ofSection_section?, hbody]
    rfl
  . rw [← hoffset, ← hstands.base]
    dsimp only [Tag.shift]
    omega

/-- The tag stands at a place of the template, or in a partial that can be loaded. -/
def Placed (resolver : Resolver) (template : Bytes) (event : Event) : Prop :=
  match event with
  | .step step =>
    (∃ place : Place, place.Reached template ∧ place.step? = some step)
      ∨ ∃ name content text delims pos, resolver.Loads name content ∧ text <:+: content
        ∧ Step.next? text delims pos = some step
  | _ => True

theorem placed_invariant (engine : Engine) (template : Bytes) (seen : List Event)
    : engine.Invariant seen (fun _ => True)
        (fun text delims pos =>
          (∃ base enclosing, Place.Reached template ⟨base, text, delims, enclosing, pos⟩)
            ∨ ∃ name content, engine.resolver.Loads name content ∧ text <:+: content)
        (Placed engine.resolver template) where
  tail _ _ := trivial
  literal _ _ := trivial
  step hplace hstep := by
    rcases hplace with ⟨base, enclosing, hreached⟩ | ⟨name, content, hloads, htext⟩
    . exact .inl ⟨_, hreached, hstep⟩
    . exact .inr ⟨name, content, _, _, _, hloads, htext, hstep⟩
  resume hplace hstep := by
    rcases hplace with ⟨base, enclosing, hreached⟩ | hpartial
    . exact .inl ⟨base, enclosing, hreached.resume hstep⟩
    . exact .inr hpartial
  print _ _ := ⟨trivial, trivial⟩
  call _ _ _ _ _ := ⟨trivial, fun _ _ _ _ => trivial⟩
  enter hplace hstep haction _ _ _ := by
    refine ⟨trivial, ?_⟩
    rw [Step.next?_delims hstep]
    rcases hplace with ⟨base, enclosing, hreached⟩ | ⟨name, content, hloads, htext⟩
    . exact .inl ⟨_, _, hreached.enter hstep haction⟩
    . exact .inr ⟨name, content, hloads, (Step.infix_of_next? hstep haction).trans htext⟩
  insert _ _ _ hanswer _ := by
    refine ⟨trivial, ?_⟩
    intro content hcontent
    exact .inr ⟨_, content, ⟨_, hanswer, hcontent⟩, List.infix_refl _⟩

/--
Where the linter reports a section, no closing tag stands in the text around it, or it stands inside of
another section of the same name. As long as no opening mark begins with a newline, the sections that are
reported are among those that a render comes to. Those that are reported to miss their closing tag are
dropped there, and so are those inside of others of the same name, unless the delimiters have changed.
-/
theorem section_alarms (template : Bytes)
    : (∀ issue ∈ check template, ∀ name, issue.problem.section? = some name →
          ∃ visit ∈ tour template, ∃ tag, visit.tag? = some tag ∧ visit.base + tag.start = issue.offset
            ∧ (tag.sigil = Step.hash ∨ tag.sigil = Step.caret) ∧ name = tag.body.drop 1
            ∧ (issue.problem = .nestedSameName name ∧ name ∈ visit.enclosing
              ∨ visit.closing? tag = none))
        ∧ ((∀ new ∈ introduced template, new.opening.head? ≠ some Bytes.newline) →
          (∀ issue ∈ check template, ∀ name, issue.problem.section? = some name →
              ∃ (place : Place) (step : Step), place.Reached template ∧ place.step? = some step
                ∧ step.section? = some name ∧ place.base + step.tag.start = issue.offset)
            ∧ ∀ (place : Place) (step : Step) (name : Bytes), place.Reached template →
                place.step? = some step → step.section? = some name → Judged template place step name)
        ∧ ∀ (engine : Engine) (depth : Nat) (stack : Stack),
            ∀ event ∈ (engine.process depth stack .standard template).events,
              Placed engine.resolver template event := by
  refine ⟨?_, ?_, ?_⟩
  . intro issue hissue name hname
    exact exists_visit_of_issue hissue hname
  . intro hopening
    constructor
    . intro issue hissue name hname
      exact exists_place_of_issue hopening hissue hname
    . intro place step name hreached hstep hname
      exact judged_of_reached hopening hreached hstep hname
  . intro engine depth stack
    apply (placed_invariant engine template _).process trivial
    exact .inl ⟨0, [], .start⟩

theorem section_alarms_other_marks
    : let template := Bytes.ofAscii "{{#a}}{{=<% %>=}}<%#a%>x<%/a%>{{/a}}"
      (∀ new ∈ introduced template, new.opening.head? ≠ some Bytes.newline)
        ∧ ∃ (place : Place) (step : Step), place.Reached template ∧ place.step? = some step
          ∧ step.action = .enter false (Bytes.ofAscii "a") (Bytes.ofAscii "x")
          ∧ Reports template (place.base + step.tag.start) (.nestedSameName (Bytes.ofAscii "a")) := by
  intro template
  let percent : Delimiters := ⟨⟨Bytes.ofAscii "<%", Bytes.ofAscii "%>"⟩, by decide, by decide⟩
  let name := Bytes.ofAscii "a"
  let first : Step := ⟨.standard, ⟨0, 6, Step.hash, Bytes.ofAscii "#a"⟩,
    .enter false name (Bytes.ofAscii "{{=<% %>=}}<%#a%>x<%/a%>"), 36, .standard⟩
  let second : Step := ⟨.standard, ⟨0, 11, Delimiters.equals, Bytes.ofAscii "=<% %>="⟩,
    .delimiters percent, 11, percent⟩
  let third : Step := ⟨percent, ⟨11, 17, Step.hash, Bytes.ofAscii "#a"⟩,
    .enter false name (Bytes.ofAscii "x"), 24, percent⟩
  let start : Place := ⟨0, template, .standard, [], 0⟩
  let inside := start.enter first name (Bytes.ofAscii "{{=<% %>=}}<%#a%>x<%/a%>")
  have hopening : ∀ new ∈ introduced template, new.opening.head? ≠ some Bytes.newline := by
    decide +kernel
  have hfirst : start.step? = some first := by decide +kernel
  have hsecond : inside.step? = some second := by decide +kernel
  have hthird : (inside.resume second).step? = some third := by decide +kernel
  have hreached : (inside.resume second).Reached template :=
    (Place.Reached.start.enter hfirst rfl).resume hsecond
  have hjudged := ((section_alarms template).2.1 hopening).2 _ third name hreached hthird rfl
  have hnested : name ∈ (inside.resume second).enclosing.map Prod.fst := by decide
  exact ⟨hopening, _, third, hreached, hthird, rfl, hjudged.nested_iff.mpr hnested⟩

end Lint

end Mustache
