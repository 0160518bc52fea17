import Mustache.Proofs.Cutoff
import Mustache.Proofs.Grammar
import Mustache.Proofs.Invariant
import Mustache.Proofs.Names
import Mustache.Proofs.Remainder
import Mustache.Proofs.Scan

/-!
This module contains what the rule that the first closing tag ends a section means for renders. Unless the
delimiters change, no section of the same name begins inside of the body, however deep its tag stands there:
the tag is passed over. Where a closing tag is missing, the tag is all that a render leaves out.
-/

namespace Mustache

/-- The offsets of texts, with delimiters, that a render of `text` comes to if it renders all sections. -/
inductive Within (text : Bytes) (delims : Delimiters) : Bytes → Delimiters → Nat → Prop where
  | start : Within text delims text delims 0
  | resume {inner : Bytes} {inside : Delimiters} {pos : Nat} {step : Step}
      (h : Within text delims inner inside pos) (hstep : Step.next? inner inside pos = some step)
    : Within text delims inner step.next step.resume
  | enter {inner name body : Bytes} {inside : Delimiters} {pos : Nat} {step : Step} {inverted : Bool}
      (h : Within text delims inner inside pos) (hstep : Step.next? inner inside pos = some step)
      (haction : step.action = .enter inverted name body)
    : Within text delims body inside 0

namespace Within

variable {text inner : Bytes} {delims inside : Delimiters} {pos : Nat}

theorem infix_text (h : Within text delims inner inside pos) : inner <:+: text := by
  induction h with
  | start => exact List.infix_refl text
  | resume _ _ ih => exact ih
  | enter _ hstep haction ih => exact (Step.infix_of_next? hstep haction).trans ih

/-- The tag is found by a render of `text`, in the text itself or in the body of a section. -/
def Meets (text : Bytes) (delims : Delimiters) (step : Step) : Prop :=
  ∃ inner inside pos, Within text delims inner inside pos ∧ Step.next? inner inside pos = some step

/-- The tag is found by a render of a partial that can be loaded. -/
def MeetsLoaded (resolver : Resolver) (step : Step) : Prop :=
  ∃ name content delims, resolver.Loads name content ∧ Meets content delims step

theorem invariant (engine : Engine) (text : Bytes) (delims : Delimiters) (seen : List Event)
    : engine.Invariant seen (fun _ => True)
        (fun inner inside pos =>
          Within text delims inner inside pos
            ∨ ∃ name content outer, engine.resolver.Loads name content
              ∧ Within content outer inner inside pos)
        (fun event => ∀ step, event = .step step →
          Meets text delims step ∨ MeetsLoaded engine.resolver step) where
  tail _ _ := nofun
  literal _ _ := nofun
  step hplace hstep := by
    intro found heq
    injection heq with heq
    rw [← heq]
    rcases hplace with hwithin | ⟨name, content, outer, hloads, hwithin⟩
    . exact .inl ⟨_, _, _, hwithin, hstep⟩
    . exact .inr ⟨name, content, outer, hloads, _, _, _, hwithin, hstep⟩
  resume hplace hstep := by
    rcases hplace with hwithin | ⟨name, content, outer, hloads, hwithin⟩
    . exact .inl (hwithin.resume hstep)
    . exact .inr ⟨name, content, outer, hloads, hwithin.resume hstep⟩
  print _ _ := ⟨nofun, nofun⟩
  call _ _ _ _ _ := ⟨nofun, fun _ _ _ _ => nofun⟩
  enter hplace hstep haction _ _ _ := by
    refine ⟨trivial, ?_⟩
    rw [Step.next?_delims hstep]
    rcases hplace with hwithin | ⟨name, content, outer, hloads, hwithin⟩
    . exact .inl (hwithin.enter hstep haction)
    . exact .inr ⟨name, content, outer, hloads, hwithin.enter hstep haction⟩
  insert _ _ _ hanswer _ := by
    refine ⟨nofun, ?_⟩
    intro content hcontent
    exact .inr ⟨_, content, _, ⟨_, hanswer, hcontent⟩, .start⟩

end Within

namespace Engine

variable {text name body : Bytes} {delims : Delimiters} {pos : Nat} {step : Step}

/--
A render drops the tag: nothing is looked up or called for it, and what follows it is rendered in the same
stack.
-/
def PassesOver (text : Bytes) (delims : Delimiters) (pos : Nat) (step : Step) : Prop :=
  ∀ (engine : Engine) (nested : Stack → Delimiters → Bytes → Run) (stack : Stack),
    engine.walk nested stack delims text pos
      =
    (Run.emit (.literal (Bytes.slice text pos step.tag.start))).andThen fun _ =>
      (Run.emit (.step step)).andThen fun _ => engine.walk nested stack delims text step.tag.stop

theorem passesOver_of_drops (h : Step.next? text delims pos = some step) (hdrops : step.Drops name)
    : PassesOver text delims pos step := by
  rcases hdrops with ⟨⟨inverted, haction⟩, hresume, hnext⟩
  intro engine nested stack
  rw [walk_of_some engine nested stack h, hresume, hnext, Step.next?_delims h]
  unfold turn
  rw [haction, Run.andThen_assoc]
  rfl

/--
The body of a section ends at the first closing tag behind its tag, where the text goes on too. The closing tag
does not stand in the body, so each tag of the same name there is dropped, if it has the same delimiters.
-/
structure ClosedFirst (text : Bytes) (step : Step) (name body : Bytes) : Prop where
  closing : ∃ stop,
    IsLeast {i | step.tag.stop ≤ i ∧ Tag.closing step.delims.toMarks name <+: text.drop i} stop
      ∧ body = Bytes.slice text (Bytes.skipNewline text step.tag.stop) stop
      ∧ let behind := stop + (Tag.closing step.delims.toMarks name).length
        step.resume = behind
          ∨ Bytes.newline ∈ body ∧ text[behind]? = some Bytes.newline ∧ step.resume = behind + 1
  next : step.next = step.delims
  absent : ¬ Tag.closing step.delims.toMarks name <:+: body
  dropped : ∀ inner pos again, Within body step.delims inner step.delims pos →
    Step.next? inner step.delims pos = some again → again.section? = some name →
      PassesOver inner step.delims pos again
  -- A render of the body acts on tags of the body, and on those of partials.
  dispatched : ∀ (engine : Engine) (depth : Nat) (stack : Stack) (again : Step),
    .step again ∈ (engine.process depth stack step.delims body).events →
      Within.Meets body step.delims again ∨ Within.MeetsLoaded engine.resolver again

theorem closedFirst_of_next? {closing : Span} (h : Step.next? text delims pos = some step)
    (hname : step.section? = some name)
    (hclosing : Tag.findClosing? text delims.toMarks name step.tag.stop = some closing)
    : ∃ inverted body, step.action = .enter inverted name body ∧ ClosedFirst text step name body := by
  rcases Step.next?_closed h hname hclosing with ⟨⟨inverted, haction⟩, hresume, hnext⟩
  have hdelims := Step.next?_delims h
  have habsent := Step.closing_not_infix_of_next? h haction
  refine ⟨inverted, _, haction, ?_⟩
  constructor
  . unfold Tag.findClosing? at hclosing
    rw [Option.map_eq_some_iff] at hclosing
    rcases hclosing with ⟨stop, hstop, rfl⟩
    rw [Bytes.find?_eq_some_iff_isLeast _ _ _ (Tag.closing_ne_nil _ _)] at hstop
    refine ⟨stop, ?_, rfl, ?_⟩
    . rwa [hdelims]
    . rw [hdelims, hresume]
      dsimp only
      split
      . next hnewline =>
        unfold Bytes.skipNewline
        split
        . next hbreak => exact .inr ⟨hnewline, hbreak, rfl⟩
        . exact .inl rfl
      . exact .inl rfl
  . rw [hdelims, hnext]
  . rwa [hdelims]
  . intro inner pos again hwithin hagain hsame
    rw [hdelims] at hwithin hagain ⊢
    apply passesOver_of_drops hagain
    rw [Step.next?_drops_iff hagain hsame]
    -- The text of the tag is a piece of the body, which holds no closing tag.
    apply Tag.findClosing?_eq_none
    intro hoccurs
    exact habsent (hoccurs.trans hwithin.infix_text)
  . intro engine depth stack again hagain
    exact (Within.invariant engine _ _ _).process trivial (.inl .start) _ hagain again rfl

theorem walk_drop_agrees (engine : Engine) (nested : Stack → Delimiters → Bytes → Run) (stack : Stack)
    (delims : Delimiters) (text : Bytes) (pos : Nat)
    : (engine.walk nested stack delims text pos).Agrees
        (engine.walk nested stack delims (text.drop pos) 0) := by
  have hrefl (stack : Stack) (delims : Delimiters) (text : Bytes)
      : (nested stack delims text).Agrees (nested stack delims text) := .refl _
  apply (walk_agrees_walkRest hrefl stack delims text pos).trans
  apply Run.Agrees.symm
  -- Both go on as a render of what is left.
  exact walk_agrees_walkRest hrefl stack delims (text.drop pos) 0

theorem walk_agrees_around (engine : Engine) (nested : Stack → Delimiters → Bytes → Run) (stack : Stack)
    {text name : Bytes} {delims : Delimiters} {pos : Nat} {turn : Turn}
    (hturn : turn ∈ (Scan.ofText text delims pos).turns) (hdrops : turn.step.Drops name)
    : (engine.walk nested stack delims text pos).Agrees
        ((engine.walk nested stack delims (text.take turn.step.tag.start) pos).andThen fun _ =>
          engine.walk nested stack turn.step.delims (text.drop turn.step.tag.stop) 0) := by
  cases hstep : Step.next? text delims pos with
  | none =>
    rw [Scan.ofText_of_none hstep] at hturn
    contradiction
  | some step =>
    have hresume := Step.next?_resume hstep
    have hbounds := Step.next?_bounds hstep
    rw [Scan.ofText_of_some hstep, List.mem_cons] at hturn
    cases hturn with
    | inl heq =>
      rw [heq] at hdrops ⊢
      dsimp only
      rw [passesOver_of_drops hstep hdrops, walk_of_none _ _ _ (Step.next?_take_start hstep),
        Step.next?_delims hstep]
      apply Run.Agrees.andThen
      . rw [List.drop_take]
        exact ⟨rfl, rfl, rfl⟩
      . apply (Run.Agrees.emit_andThen_of_silent ⟨rfl, rfl⟩ _).trans
        apply walk_drop_agrees
    | inr hmem =>
      have hle := Scan.le_pos_of_mem hmem
      have hlater := Step.next?_bounds (Scan.next?_of_mem hmem)
      have htake := Step.next?_take hstep (show step.resume ≤ turn.step.tag.start by omega)
      rw [walk_of_some engine nested stack hstep, walk_of_some engine nested stack htake,
        Bytes.slice_take text (by omega), Run.andThen_assoc, Run.andThen_assoc]
      apply Run.Agrees.andThen (.refl _)
      apply Run.Agrees.andThen (.refl _)
      exact walk_agrees_around engine nested stack hmem hdrops
termination_by text.length - pos

theorem process_agrees_around (engine : Engine) (depth : Nat) (stack : Stack) {turn : Turn}
    (hturn : turn ∈ (Scan.ofText text delims 0).turns) (hdrops : turn.step.Drops name)
    : (engine.process depth stack delims text).Agrees
        ((engine.process depth stack delims (text.take turn.step.tag.start)).andThen fun _ =>
          engine.process depth stack turn.step.delims (text.drop turn.step.tag.stop)) := by
  cases depth with
  | zero => exact .refl _
  | succ depth => exact walk_agrees_around engine (engine.process depth) stack hturn hdrops

/--
If a closing tag stands behind the tag of a section, the first one ends the section. A render then drops all
tags of sections with the same name and the same delimiters in the body, however deep in other sections they
stand. If no closing tag stands there, a render does what a render of the text before the tag does, and then
what one of the text after it does.
-/
theorem first_closing_wins (text : Bytes) (delims : Delimiters)
    : (∀ pos step name, Step.next? text delims pos = some step → step.section? = some name →
          (∃ i, step.tag.stop ≤ i ∧ Tag.closing delims.toMarks name <+: text.drop i) →
            ∃ inverted body, step.action = .enter inverted name body ∧ ClosedFirst text step name body)
        ∧ ∀ turn ∈ (Scan.ofText text delims 0).turns, ∀ name, turn.step.section? = some name →
          (¬ ∃ i, turn.step.tag.stop ≤ i
              ∧ Tag.closing turn.step.delims.toMarks name <+: text.drop i) →
            ∀ (engine : Engine) (depth : Nat) (stack : Stack),
              (engine.process depth stack delims text).Agrees
                ((engine.process depth stack delims (text.take turn.step.tag.start)).andThen fun _ =>
                  engine.process depth stack turn.step.delims (text.drop turn.step.tag.stop)) := by
  constructor
  . rintro pos step name hstep hname ⟨i, hi, hoccurs⟩
    have hne := Tag.closing_ne_nil delims.toMarks name
    rcases Bytes.exists_find?_of_occurs hne hi hoccurs with ⟨stop, hstop⟩
    apply closedFirst_of_next? hstep hname
    unfold Tag.findClosing?
    rw [hstop]
    rfl
  . intro turn hturn name hname hnone engine depth stack
    apply process_agrees_around engine depth stack hturn
    rw [Step.next?_drops_iff (Scan.next?_of_mem hturn) hname]
    cases hclosing : Tag.findClosing? text turn.step.delims.toMarks name turn.step.tag.stop with
    | none => rfl
    | some closing =>
      have hbounds := Tag.findClosing?_bounds hclosing
      exact absurd ⟨_, hbounds.1, (Tag.findClosing?_first hclosing).1⟩ hnone

theorem first_closing_wins_nested
    : let text := Bytes.ofAscii "{{#a}}{{#b}}{{#a}}x{{/b}}{{/a}}{{#c}}y"
      (∃ step inverted body, step.action = .enter inverted (Bytes.ofAscii "a") body
          ∧ ClosedFirst text step (Bytes.ofAscii "a") body
          ∧ ∃ inner pos again, inner ≠ body ∧ Step.next? inner .standard pos = some again
            ∧ again.section? = some (Bytes.ofAscii "a") ∧ PassesOver inner .standard pos again)
        ∧ ∀ (engine : Engine) (depth : Nat) (stack : Stack),
          (engine.process depth stack .standard text).Agrees
            ((engine.process depth stack .standard (text.take 31)).andThen fun _ =>
              engine.process depth stack .standard (Bytes.ofAscii "y")) := by
  intro text
  let a := Bytes.ofAscii "a"
  let c := Bytes.ofAscii "c"
  let innermost := Bytes.slice text 12 19
  let outer : Step := ⟨.standard, ⟨0, 6, Step.hash, Bytes.ofAscii "#a"⟩,
    .enter false a (Bytes.slice text 6 25), 31, .standard⟩
  let middle : Step := ⟨.standard, ⟨0, 6, Step.hash, Bytes.ofAscii "#b"⟩,
    .enter false (Bytes.ofAscii "b") innermost, 19, .standard⟩
  let again : Step := ⟨.standard, ⟨0, 6, Step.hash, Bytes.ofAscii "#a"⟩, .unclosed false a, 6, .standard⟩
  let last : Step := ⟨.standard, ⟨31, 37, Step.hash, Bytes.ofAscii "#c"⟩, .unclosed false c, 37, .standard⟩
  have houter : Step.next? text .standard 0 = some outer := by decide +kernel
  have hmiddle : Step.next? (Bytes.slice text 6 25) .standard 0 = some middle := by decide +kernel
  have hagain : Step.next? innermost .standard 0 = some again := by decide +kernel
  have hlast : Step.next? text .standard 31 = some last := by decide +kernel
  have hoccurs : Tag.closing Delimiters.standard.toMarks a <+: text.drop 25 := by decide +kernel
  rcases first_closing_wins text .standard with ⟨hclosed, hdropped⟩
  constructor
  . rcases hclosed 0 outer a houter rfl ⟨25, by decide, hoccurs⟩ with ⟨inverted, body, haction, hfirst⟩
    have hbody : Bytes.slice text 6 25 = body := by
      injection haction
    rw [← hbody] at hfirst
    refine ⟨outer, false, _, rfl, hfirst, innermost, 0, again, by decide +kernel, hagain, rfl, ?_⟩
    exact hfirst.dropped innermost 0 again (.enter .start hmiddle rfl) hagain rfl
  . have hturn : (⟨31, last⟩ : Turn) ∈ (Scan.ofText text .standard 0).turns := by
      rw [Scan.ofText_of_some houter, Scan.ofText_of_some hlast]
      simp [outer]
    apply hdropped ⟨31, last⟩ hturn c rfl
    rintro ⟨i, hi, hcloses⟩
    have hlength := Bytes.add_length_le_of_occurs (Tag.closing_ne_nil _ _) hcloses
    rw [show text.length = 38 by decide +kernel,
      show (Tag.closing last.delims.toMarks c).length = 6 by decide +kernel] at hlength
    change 37 ≤ i at hi
    omega

end Engine

end Mustache
