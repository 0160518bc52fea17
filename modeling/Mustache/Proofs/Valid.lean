import Mustache.Proofs.Characters
import Mustache.Proofs.Invariant
import Mustache.Proofs.Knows

/-!
This module contains what becomes of characters in a render: if the template, the partials and the data
are whole characters, so is everything that a render cuts out of them and puts together.
-/

namespace Mustache

namespace Action

/-- All texts of the action are whole characters. -/
def Valid (action : Action) : Prop :=
  match action with
  | .comment => True
  | .variable _ name => Utf8.Valid name
  | .enter _ name body => Utf8.Valid name ∧ Utf8.Valid body
  | .unclosed _ name => Utf8.Valid name
  | .insert name => Utf8.Valid name
  | .delimiters new => new.Valid
  | .badDelimiters body => Utf8.Valid body

end Action

namespace Step

structure Valid (step : Step) : Prop where
  body : Utf8.Valid step.tag.body
  action : step.action.Valid
  next : step.next.Valid

variable {text : Bytes} {delims : Delimiters} {tag : Tag} {pos : Nat} {step : Step}

theorem valid_ofSection (hdelims : delims.Valid) (hstop : Utf8.Valid (text.drop tag.stop))
    (hbody : Utf8.Valid tag.body) (hname : Utf8.Valid (tag.body.drop 1)) (inverted : Bool)
    : (ofSection text delims tag inverted).Valid
        ∧ Utf8.Valid (text.drop (ofSection text delims tag inverted).resume) := by
  unfold ofSection
  dsimp
  split
  . exact ⟨⟨hbody, hname, hdelims⟩, hstop⟩
  . next closing hclosing =>
    have hclosing := Tag.valid_of_findClosing? hstop hdelims hname hclosing
    refine ⟨⟨hbody, ⟨hname, ?_⟩, hdelims⟩, ?_⟩
    . exact hclosing.1.slice_of_drop hstop.drop_skipNewline
    . dsimp
      split
      . exact hclosing.2.drop_skipNewline
      . exact hclosing.2

theorem valid_ofTag {marks : Marks} (hdelims : delims.Valid) (htag : Tag.find? text marks pos = some tag)
    (hstop : Utf8.Valid (text.drop tag.stop)) (hbody : Utf8.Valid tag.body)
    : (ofTag text delims tag).Valid ∧ Utf8.Valid (text.drop (ofTag text delims tag).resume) := by
  have hname := Tag.valid_drop_body htag hbody
  unfold ofTag
  split
  . exact ⟨⟨hbody, trivial, hdelims⟩, hstop⟩
  split
  . next hsigil =>
    have : tag.sigil.toNat < 0x80 := by
      cases hsigil with
      | inl hsigil => rw [hsigil]; decide
      | inr hsigil =>
        unfold Tag.isTriple at hsigil
        rw [Bool.and_eq_true, beq_iff_eq] at hsigil
        rw [hsigil.1]
        decide
    exact ⟨⟨hbody, (hname this).trim, hdelims⟩, hstop⟩
  split
  . next hsigil => exact valid_ofSection hdelims hstop hbody (hname (by rw [hsigil]; decide)) false
  split
  . next hsigil => exact valid_ofSection hdelims hstop hbody (hname (by rw [hsigil]; decide)) true
  split
  . next hsigil =>
    split
    . exact ⟨⟨hbody, hbody, hdelims⟩, hstop⟩
    . next new hnew =>
      have := Delimiters.valid_of_ofCommand? (hname (by rw [hsigil]; decide)) hnew
      exact ⟨⟨hbody, this, this⟩, hstop.drop_skipLine⟩
  split
  . next hsigil => exact ⟨⟨hbody, (hname (by rw [hsigil]; decide)).trim, hdelims⟩, hstop.drop_skipLine⟩
  . exact ⟨⟨hbody, hbody.trim, hdelims⟩, hstop⟩

theorem valid_of_next? (h : Utf8.Valid (text.drop pos)) (hdelims : delims.Valid)
    (hstep : next? text delims pos = some step)
    : Utf8.Valid (Bytes.slice text pos step.tag.start) ∧ step.Valid
        ∧ Utf8.Valid (text.drop step.resume) := by
  rcases next?_eq_some hstep with ⟨htag, hofTag⟩
  rcases Tag.valid_of_find? h hdelims htag with ⟨hliteral, hbody, hstop⟩
  have hvalid := valid_ofTag hdelims htag hstop hbody
  rw [← hofTag] at hvalid
  exact ⟨hliteral, hvalid⟩

end Step

namespace Binding

/-- What the binding puts out is whole characters; of a callout, if the body is. -/
def Valid (binding : Binding) : Prop :=
  match binding with
  | .variable value => ∀ output, value.render? = .ok output → Utf8.Valid output
  | .callout _ function =>
    ∀ body value output, Utf8.Valid body → function.run body = .ok value → value.render? = .ok output →
      Utf8.Valid output
  | _ => True

end Binding

namespace Stack

theorem valid_read {stack : Stack} {name bytes : Bytes} (h : ∀ binding, stack.Knows binding → binding.Valid)
    (hread : stack.read name = .ok bytes)
    : Utf8.Valid bytes := by
  rcases read_eq_ok hread with rfl | ⟨context, hcontext, hhas⟩
  . exact Utf8.valid_nil
  . cases hhas with
    | nothing => exact Utf8.valid_nil
    | flag b => exact Utf8.valid_encode _
    | value hknown hrender => exact h _ ⟨context, hcontext, hknown⟩ _ hrender

end Stack

namespace Resolver

def Valid (resolver : Resolver) : Prop :=
  ∀ name answer content, resolver name = .ok answer → answer.content = some content →
    Utf8.Valid content

end Resolver

namespace Event

/-- All texts of the event are whole characters. -/
def Valid (event : Event) : Prop :=
  match event with
  | literal text => Utf8.Valid text
  | step tagged => tagged.Valid
  | escaped value output => Utf8.Valid value ∧ Utf8.Valid output
  | plain value => Utf8.Valid value
  | loaded name answer => Utf8.Valid name ∧ ∀ content, answer.content = some content → Utf8.Valid content
  | called _ _ name body => Utf8.Valid name ∧ Utf8.Valid body
  | result output => Utf8.Valid output
  | tail delims text => delims.Valid ∧ Utf8.Valid text

theorem Valid.output {event : Event} (h : event.Valid) : Utf8.Valid event.output := by
  cases event with
  | literal => exact h
  | step => exact Utf8.valid_nil
  | escaped => exact h.2
  | plain => exact h
  | loaded => exact Utf8.valid_nil
  | called => exact Utf8.valid_nil
  | result => exact h
  | tail => exact h.2

end Event

namespace Engine

variable {resolver : Resolver}

theorem valid_invariant (choice : Escape) (hresolver : resolver.Valid) (seen : List Event)
    : Invariant ⟨choice.apply, resolver⟩ seen (fun stack => ∀ binding, stack.Knows binding → binding.Valid)
        (fun text delims pos => Utf8.Valid (text.drop pos) ∧ delims.Valid) Event.Valid where
  tail hplace _ := ⟨hplace.2, hplace.1⟩
  literal hplace hstep := (Step.valid_of_next? hplace.1 hplace.2 hstep).1
  step hplace hstep := (Step.valid_of_next? hplace.1 hplace.2 hstep).2.1
  resume hplace hstep :=
    have hvalid := (Step.valid_of_next? hplace.1 hplace.2 hstep).2
    ⟨hvalid.2, hvalid.1.next⟩
  print hstack hread :=
    have hvalue := Stack.valid_read hstack hread
    ⟨hvalue, hvalue, choice.valid_apply hvalue⟩
  call hplace hstep haction hstack hplan := by
    have haction' := (Step.valid_of_next? hplace.1 hplace.2 hstep).2.1.action
    rw [haction] at haction'
    refine ⟨haction', ?_⟩
    intro value output hvalue houtput
    exact hstack _ (Plan.knows_of_call hplan) _ _ _ haction'.2 hvalue houtput
  enter hplace hstep haction hstack hplan hinner := by
    have haction' := (Step.valid_of_next? hplace.1 hplace.2 hstep).2.1.action
    rw [haction] at haction'
    refine ⟨?_, haction'.2, ?_⟩
    . intro binding hbinding
      exact hstack _ (Plan.knows_of_scopes hplan hinner hbinding)
    . rw [Step.next?_delims hstep]
      exact hplace.2
  insert hplace hstep haction hanswer _ := by
    have haction' := (Step.valid_of_next? hplace.1 hplace.2 hstep).2.1.action
    rw [haction] at haction'
    refine ⟨⟨haction', fun content => hresolver _ _ content hanswer⟩, ?_⟩
    intro content hcontent
    rw [Step.next?_delims hstep]
    exact ⟨hresolver _ _ content hanswer hcontent, hplace.2⟩

/--
A render of whole characters cuts none of them in two: all texts that it finds are whole characters,
so is the output, and decoding the output replaces nothing.
-/
theorem process_valid (choice : Escape) (resolver : Resolver) (hresolver : resolver.Valid)
    (depth : Nat) (stack : Stack) (hstack : ∀ binding, stack.Knows binding → binding.Valid)
    (template : Bytes) (htemplate : Utf8.Valid template)
    : let run := process ⟨choice.apply, resolver⟩ depth stack .standard template
      (∀ event ∈ run.events, event.Valid)
        ∧ Utf8.isValid run.output = true
        ∧ Utf8.encode (Utf8.decode run.output) = run.output := by
  intro run
  have hevents : ∀ event ∈ run.events, event.Valid :=
    (valid_invariant choice hresolver _).process hstack ⟨htemplate, Delimiters.valid_standard⟩
  have houtput : Utf8.Valid run.output := by
    unfold Run.output
    rw [List.flatMap_def]
    apply Utf8.valid_flatten
    intro piece hpiece
    rw [List.mem_map] at hpiece
    rcases hpiece with ⟨event, hevent, rfl⟩
    exact (hevents event hevent).output
  refine ⟨hevents, ?_, houtput.encode_decode⟩
  rw [Utf8.isValid_iff]
  exact houtput

theorem process_valid_other_marks
    : let template := Utf8.encode "é\x7b\x7b=« »=\x7d\x7d\n«a»«\x7bb\x7d»«#f»ü«/f»«^c»ß«/c»«=⟨ ⟩=»⟨a⟩ö"
      let context : Context := fun name =>
        if name = Bytes.ofAscii "a" then .variable (.text "<ñ>")
        else if name = Bytes.ofAscii "f" then
          .callout false (.mk none fun body => .ok (.bytes .string (body ++ body)))
        else .absent
      let run := process ⟨Escape.html.apply, Resolver.none⟩ 1 [context] .standard template
      Resolver.none.Valid
        ∧ (∀ binding, Stack.Knows [context] binding → binding.Valid)
        ∧ Utf8.Valid template
        ∧ (∀ event ∈ run.events, event.Valid)
        ∧ Utf8.isValid run.output = true
        ∧ Utf8.encode (Utf8.decode run.output) = run.output
        ∧ run.output = Utf8.encode "é&lt;ñ&gt;üüß&lt;ñ&gt;ö" := by
  intro template context run
  have hresolver : Resolver.none.Valid := by
    intro name answer content hanswer hcontent
    injection hanswer with hanswer
    rw [← hanswer] at hcontent
    contradiction
  have hstack : ∀ binding, Stack.Knows [context] binding → binding.Valid := by
    have hlist : ∀ name items, context name ≠ .list items := by
      intro name items hitems
      dsimp [context] at hitems
      split at hitems
      . contradiction
      split at hitems <;> contradiction
    rintro binding ⟨known, hmem, hknows⟩
    rw [List.mem_singleton.mp hmem] at hknows
    rcases hknows.exists_name hlist with ⟨name, rfl⟩
    dsimp [context]
    split
    . intro output houtput
      injection houtput with houtput
      rw [← houtput]
      exact Utf8.valid_encode _
    split
    . intro body value output hbody hvalue houtput
      injection hvalue with hvalue
      rw [← hvalue] at houtput
      injection houtput with houtput
      rw [← houtput]
      exact hbody.append hbody
    . trivial
  have htemplate : Utf8.Valid template := Utf8.valid_encode _
  have hrun := process_valid .html Resolver.none hresolver 1 [context] hstack template htemplate
  exact ⟨hresolver, hstack, htemplate, hrun.1, hrun.2.1, hrun.2.2, by decide +kernel⟩

end Engine

end Mustache
