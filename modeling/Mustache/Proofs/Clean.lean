import Mustache.Proofs.Abreast
import Mustache.Proofs.Invariant

/-!
This module contains what a linter without complaints promises to a render. As long as the two are
abreast of each other, nothing that the render comes to is wrong.
-/

namespace Mustache

namespace Event

/--
A section has its closing tag, a command sets delimiters, no tag is a closing tag, and no opening mark
stands in the text after the last tag.
-/
def IsClean (event : Event) : Prop :=
  match event with
  | step tagged =>
    (tagged.tag.sigil = Step.hash ∨ tagged.tag.sigil = Step.caret →
      ∃ inverted name body, tagged.action = .enter inverted name body)
      ∧ (tagged.tag.sigil = Delimiters.equals → ∃ new, tagged.action = .delimiters new)
      ∧ tagged.tag.sigil ≠ Tag.slash
  | tail delims text => ¬ delims.opening <:+: text
  | _ => True

end Event

namespace Lint

/-- Nothing is reported at the visit, and no opening mark that begins with a newline is set. -/
structure Visit.Faultless (template : Bytes) (visit : Visit) : Prop where
  findings : visit.findings template = []
  command : ∀ tag new, visit.tag? = some tag → Visit.command? tag = some new →
    new.opening.head? ≠ some Bytes.newline

/-- All visits from `visit` on are faultless, and `text` is what is left of its text. -/
structure Passed (template text : Bytes) (delims : Delimiters) (pos : Nat) (visit : Visit)
    (count : Nat) : Prop where
  delims_eq : visit.delims = delims
  count_le : count ≤ visit.text.length
  drop : visit.text.drop count = text
  pos_le : visit.pos ≤ count + pos
  pos_le_length : pos ≤ text.length
  white : ∀ b ∈ Bytes.slice visit.text visit.pos (count + pos), Bytes.IsWhite b
  visible : delims.Visible
  faultless : ∀ later ∈ visits visit, later.Faultless template

namespace Passed

variable {template text : Bytes} {delims : Delimiters} {pos count : Nat} {visit : Visit} {tag : Tag}

theorem abreast (h : Passed template text delims pos visit count) : Abreast text delims pos visit count where
  delims_eq := h.delims_eq
  count_le := h.count_le
  drop := h.drop
  pos_le := h.pos_le
  pos_le_length := h.pos_le_length
  white := h.white
  visible := h.visible
  commands later hlater := (h.faultless later hlater).command

theorem of_abreast (h : Abreast text delims pos visit count)
    (hfindings : ∀ later ∈ visits visit, later.findings template = [])
    : Passed template text delims pos visit count where
  delims_eq := h.delims_eq
  count_le := h.count_le
  drop := h.drop
  pos_le := h.pos_le
  pos_le_length := h.pos_le_length
  white := h.white
  visible := h.visible
  faultless later hlater := ⟨hfindings later hlater, h.commands later hlater⟩

theorem later {text' : Bytes} {delims' : Delimiters} {pos' count' : Nat} {visit' : Visit}
    (h : Passed template text delims pos visit count) (habreast : Abreast text' delims' pos' visit' count')
    (hlater : visits visit' ⊆ visits visit)
    : Passed template text' delims' pos' visit' count' := by
  apply of_abreast habreast
  intro later hmem
  exact (h.faultless later (hlater hmem)).findings

theorem head (h : Passed template text delims pos visit count) : visit.Faultless template := by
  apply h.faultless
  apply mem_visits

theorem problem?_eq_none (h : Passed template text delims pos visit count)
    (htag : Tag.find? text delims.toMarks pos = some tag)
    : visit.problem? template (tag.shift count) = none := by
  have htag? := h.abreast.tag?_eq
  rw [htag] at htag?
  have hfindings := h.head.findings
  rw [Visit.findings_of_tag template htag?] at hfindings
  cases hproblem : visit.problem? template (tag.shift count) with
  | none => rfl
  | some problem =>
    rw [hproblem] at hfindings
    contradiction

theorem closing_found (h : Passed template text delims pos visit count)
    (htag : Tag.find? text delims.toMarks pos = some tag)
    (hsection : tag.sigil = Step.hash ∨ tag.sigil = Step.caret)
    : ∃ closing, Tag.findClosing? text delims.toMarks (tag.body.drop 1) tag.stop = some closing := by
  have hproblem := h.problem?_eq_none htag
  unfold Visit.problem? at hproblem
  dsimp at hproblem
  rw [Tag.shift_sigil, h.abreast.closing?_eq hsection, if_pos hsection] at hproblem
  cases hclosing : Tag.findClosing? text delims.toMarks (tag.body.drop 1) tag.stop with
  | some closing => exact ⟨closing, rfl⟩
  | none =>
    rw [hclosing] at hproblem
    unfold checkSection at hproblem
    split at hproblem
    . contradiction
    . rw [if_neg (by simp)] at hproblem
      split at hproblem <;> contradiction

theorem command_read (h : Passed template text delims pos visit count)
    (htag : Tag.find? text delims.toMarks pos = some tag) (hcommand : tag.sigil = Delimiters.equals)
    : ∃ new, Delimiters.ofCommand? tag.body = some new := by
  have hproblem := h.problem?_eq_none htag
  have hread : Visit.command? (tag.shift count) = Delimiters.ofCommand? tag.body := by
    unfold Visit.command?
    exact if_pos hcommand
  unfold Visit.problem? at hproblem
  dsimp at hproblem
  rw [hread, Tag.shift_sigil, hcommand, if_neg (by decide), if_neg (by decide), if_pos rfl] at hproblem
  cases hnew : Delimiters.ofCommand? tag.body with
  | none =>
    rw [hnew] at hproblem
    contradiction
  | some new => exact ⟨new, rfl⟩

theorem sigil_ne_slash (h : Passed template text delims pos visit count)
    (htag : Tag.find? text delims.toMarks pos = some tag)
    : tag.sigil ≠ Tag.slash := by
  intro hslash
  have hproblem := h.problem?_eq_none htag
  unfold Visit.problem? at hproblem
  dsimp at hproblem
  rw [Tag.shift_sigil, hslash, if_neg (by decide), if_pos rfl] at hproblem
  contradiction

theorem isClean_step {step : Step} (h : Passed template text delims pos visit count)
    (hstep : Step.next? text delims pos = some step)
    : Event.IsClean (.step step) := by
  rcases Step.next?_eq_some hstep with ⟨htag, hofTag⟩
  refine ⟨?_, ?_, h.sigil_ne_slash htag⟩
  . intro hsection
    rcases h.closing_found htag hsection with ⟨closing, hclosing⟩
    rw [hofTag, Step.ofTag_of_section text delims hsection]
    unfold Step.ofSection
    dsimp
    rw [hclosing]
    exact ⟨_, _, _, rfl⟩
  . intro hcommand
    rcases h.command_read htag hcommand with ⟨new, hnew⟩
    rw [hofTag, Step.ofTag_of_command text delims hcommand, hnew]
    exact ⟨new, rfl⟩

theorem isClean_tail (h : Passed template text delims pos visit count)
    (hstep : Step.next? text delims pos = none)
    : Event.IsClean (.tail delims (text.drop pos)) := by
  unfold Step.next? at hstep
  rw [Option.map_eq_none_iff] at hstep
  have htag := h.abreast.tag?_eq
  rw [hstep] at htag
  have hfindings := h.head.findings
  unfold Visit.findings at hfindings
  rw [htag] at hfindings
  dsimp at hfindings
  have hlength := congrArg List.length h.drop
  rw [List.length_drop] at hlength
  have hcount := h.count_le
  have hpos := h.pos_le_length
  have hle := h.pos_le
  have hnone : Bytes.find? visit.text visit.delims.opening visit.pos = none := by
    cases hfind : Bytes.find? visit.text visit.delims.opening visit.pos with
    | none => rfl
    | some =>
      rw [hfind] at hfindings
      contradiction
  rw [h.delims_eq, Bytes.find?_eq_none_iff _ (by omega)] at hnone
  intro hoccurs
  rcases hoccurs with ⟨before, after, hoccurs⟩
  rw [← h.drop, List.drop_drop] at hoccurs
  have hrest : (visit.text.drop visit.pos).drop (count + pos - visit.pos + before.length)
      = delims.opening ++ after := by
    rw [List.drop_drop, ← Nat.add_assoc, Nat.add_sub_cancel' hle, ← List.drop_drop, ← hoccurs,
      List.append_assoc, List.drop_left]
  apply hnone (count + pos - visit.pos + before.length)
  . have := congrArg List.length hoccurs
    simp only [List.length_append, List.length_drop] at this ⊢
    omega
  . rw [hrest]
    apply List.prefix_append

end Passed

theorem passed_template {template : Bytes} (hclean : check template = [])
    (hopening : ∀ new ∈ introduced template, new.opening.head? ≠ some Bytes.newline)
    : Passed template template .standard 0 ⟨template, 0, .standard, [], 0⟩ 0 := by
  apply Passed.of_abreast (abreast_start hopening)
  unfold check at hclean
  rw [List.map_eq_nil_iff, walk_eq_visits template ⟨template, 0, .standard, [], 0⟩,
    List.flatMap_eq_nil_iff] at hclean
  exact hclean

/-- The places in texts that the linter has passed. -/
def Reaches (template text : Bytes) (delims : Delimiters) (pos : Nat) : Prop :=
  ∃ visit count, Passed template text delims pos visit count

theorem Reaches.resume {template text : Bytes} {delims : Delimiters} {pos : Nat} {step : Step}
    (h : Reaches template text delims pos) (hstep : Step.next? text delims pos = some step)
    : Reaches template text step.next step.resume := by
  rcases h with ⟨visit, count, h⟩
  exact ⟨_, count, h.later (h.abreast.resume hstep) (visits_after_subset (h.abreast.tag?_of_next? hstep))⟩

theorem Reaches.enter {template text name body : Bytes} {delims : Delimiters} {pos : Nat} {step : Step}
    {inverted : Bool} (h : Reaches template text delims pos)
    (hstep : Step.next? text delims pos = some step) (haction : step.action = .enter inverted name body)
    : Reaches template body step.delims 0 := by
  rcases h with ⟨visit, count, h⟩
  rcases h.abreast.enter hstep haction with ⟨closing, hclosing, hbody⟩
  rw [Step.next?_delims hstep]
  exact ⟨_, _, h.later hbody (visits_enter_subset (h.abreast.tag?_of_next? hstep) hclosing)⟩

theorem clean_invariant (escape : Bytes → Bytes) {resolver : Resolver} (template : Bytes)
    (hresolver : ∀ name answer, resolver name = .ok answer → answer.content = none) (seen : List Event)
    : Engine.Invariant ⟨escape, resolver⟩ seen (fun _ => True) (Reaches template) Event.IsClean where
  tail hplace hstep := by
    rcases hplace with ⟨visit, count, h⟩
    exact h.isClean_tail hstep
  literal _ _ := trivial
  step hplace hstep := by
    rcases hplace with ⟨visit, count, h⟩
    exact h.isClean_step hstep
  resume hplace hstep := hplace.resume hstep
  print _ _ := ⟨trivial, trivial⟩
  call _ _ _ _ _ := ⟨trivial, fun _ _ _ _ => trivial⟩
  enter hplace hstep haction _ _ _ := ⟨trivial, hplace.enter hstep haction⟩
  insert _ _ _ hanswer _ := by
    refine ⟨trivial, ?_⟩
    intro content hcontent
    rw [hresolver _ _ hanswer] at hcontent
    contradiction

/--
A template that the linter has no complaint about renders cleanly in every stack: all sections are
closed, all commands take effect, no closing tag is left over, and no mark is left in a text.
-/
theorem render_clean_of_check (escape : Bytes → Bytes) (resolver : Resolver)
    (hresolver : ∀ name answer, resolver name = .ok answer → answer.content = none)
    (template : Bytes) (hclean : check template = [])
    (hopening : ∀ new ∈ introduced template, new.opening.head? ≠ some Bytes.newline)
    (depth : Nat) (stack : Stack)
    : ∀ event ∈ (Engine.process ⟨escape, resolver⟩ depth stack .standard template).events,
        event.IsClean := by
  apply (clean_invariant escape template hresolver _).process trivial
  exact ⟨_, _, passed_template hclean hopening⟩

theorem render_clean_of_check_nested_commands
    : let template := Bytes.ofAscii "{{#a}}\n{{=<% %>=}} \n<%^b%>x<%/b%><%={{ }}=%>\n{{/a}}\n{{c}}"
      let context : Context := fun name =>
        if name = Bytes.ofAscii "a" then .list [Context.empty, Context.empty] else .absent
      (∀ name answer, Resolver.none name = .ok answer → answer.content = none)
        ∧ check template = []
        ∧ (∀ new ∈ introduced template, new.opening.head? ≠ some Bytes.newline)
        ∧ ∀ event ∈ (Engine.process ⟨id, Resolver.none⟩ 1 [context] .standard template).events,
            event.IsClean := by
  intro template context
  have hresolver : ∀ name answer, Resolver.none name = .ok answer → answer.content = none := by
    intro name answer hanswer
    injection hanswer with hanswer
    rw [← hanswer]
  have hclean : check template = [] := by decide +kernel
  have hopening : ∀ new ∈ introduced template, new.opening.head? ≠ some Bytes.newline := by
    decide +kernel
  exact ⟨hresolver, hclean, hopening,
    render_clean_of_check id Resolver.none hresolver template hclean hopening 1 [context]⟩

end Lint

end Mustache
