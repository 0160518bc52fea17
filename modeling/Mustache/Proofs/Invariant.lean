import Mustache.Proofs.Simulation

/-!
This module contains invariants of renders: what holds of each event that a turn emits holds of every
event of a run, whether it fails or not. `Places` holds of the places in texts where a turn can begin,
and `Stacks` of the stacks there; `seen` are events that the run is known to stay within.
-/

namespace Mustache

namespace Run

/-- `P` holds of all events of the run, if it stays within `seen`. -/
def AllWithin (seen : List Event) (P : Event → Prop) (run : Run) : Prop :=
  run.events ⊆ seen → ∀ event ∈ run.events, P event

namespace AllWithin

variable {seen : List Event} {P : Event → Prop}

theorem emit {event : Event} (h : P event) : (emit event).AllWithin seen P := by
  intro _ other hother
  rw [List.mem_singleton.mp hother]
  exact h

theorem andThen {first : Run} {second : Unit → Run} (hfirst : first.AllWithin seen P)
    (hsecond : (second ()).AllWithin seen P)
    : (first.andThen second).AllWithin seen P := by
  cases hfailure : first.failure with
  | some =>
    rw [andThen_of_failed second (by simp [hfailure])]
    exact hfirst
  | none =>
    rw [andThen_of_ok second hfailure]
    intro hseen event hevent
    rw [List.append_subset] at hseen
    cases List.mem_append.mp hevent with
    | inl hmem => exact hfirst hseen.1 event hmem
    | inr hmem => exact hsecond hseen.2 event hmem

theorem emit_andThen {event : Event} {second : Unit → Run}
    (h : event ∈ seen → P event ∧ (second ()).AllWithin seen P)
    : ((Run.emit event).andThen second).AllWithin seen P := by
  intro hseen
  rw [Run.emit_andThen, List.cons_subset] at hseen
  have := h hseen.1
  apply (emit this.1).andThen this.2
  rw [Run.emit_andThen, List.cons_subset]
  exact hseen

theorem congruence : Congruence fun run _ => run.AllWithin seen P where
  done := by simp [AllWithin, done]
  fail := by simp [AllWithin, fail]
  andThen := andThen

theorem each {items : List α} {run : α → Run} (h : ∀ item ∈ items, (run item).AllWithin seen P)
    : (Run.each items run).AllWithin seen P :=
  @Congruence.each α (fun run _ => run.AllWithin seen P) items run run congruence h

end AllWithin

end Run

namespace Engine

/-- Each turn at one of the places emits only what `P` holds of, and leads to such places again. -/
structure Invariant (engine : Engine) (seen : List Event) (Stacks : Stack → Prop)
    (Places : Bytes → Delimiters → Nat → Prop) (P : Event → Prop) : Prop where
  tail : ∀ {text delims pos}, Places text delims pos → Step.next? text delims pos = none →
    P (.tail delims (text.drop pos))
  literal : ∀ {text delims pos step}, Places text delims pos → Step.next? text delims pos = some step →
    P (.literal (Bytes.slice text pos step.tag.start))
  step : ∀ {text delims pos step}, Places text delims pos → Step.next? text delims pos = some step →
    P (.step step)
  resume : ∀ {text delims pos step}, Places text delims pos → Step.next? text delims pos = some step →
    Places text step.next step.resume
  print : ∀ {stack name value}, Stacks stack → stack.read name = .ok value →
    P (.plain value) ∧ P (.escaped value (engine.escape value))
  call : ∀ {text delims pos step stack inverted name body effectful callout}, Places text delims pos →
    Step.next? text delims pos = some step → step.action = .enter inverted name body → Stacks stack →
      Plan.ofSection stack inverted name = .ok (.call effectful callout) →
        P (.called effectful callout.label name body)
          ∧ ∀ value output, callout.run body = .ok value → value.render? = .ok output →
            P (.result output)
  enter : ∀ {text delims pos step stack inverted name body inners inner}, Places text delims pos →
    Step.next? text delims pos = some step → step.action = .enter inverted name body → Stacks stack →
      Plan.ofSection stack inverted name = .ok (.scopes inners) → inner ∈ inners →
        Stacks inner ∧ Places body step.delims 0
  insert : ∀ {text delims pos step name answer}, Places text delims pos →
    Step.next? text delims pos = some step → step.action = .insert name →
      engine.resolver name = .ok answer → .loaded name answer ∈ seen →
        P (.loaded name answer) ∧ ∀ content, answer.content = some content → Places content step.delims 0

namespace Invariant

open Run

variable {engine : Engine} {seen : List Event} {Stacks : Stack → Prop}
  {Places : Bytes → Delimiters → Nat → Prop} {P : Event → Prop}

theorem printVariable (inv : engine.Invariant seen Stacks Places P) {stack : Stack}
    (hstack : Stacks stack) (escaped : Bool) (name : Bytes)
    : (engine.printVariable stack escaped name).AllWithin seen P := by
  unfold Engine.printVariable
  split
  . exact AllWithin.congruence.fail _
  . next value hread =>
    have := inv.print hstack hread
    apply AllWithin.emit
    split
    . exact this.2
    . exact this.1

theorem simulation (inv : engine.Invariant seen Stacks Places P)
    : Simulation engine engine Places (fun stack stack' => stack = stack' ∧ Stacks stack)
        fun run _ => run.AllWithin seen P where
  toCongruence := AllWithin.congruence
  tail hplace hstep := AllWithin.emit (inv.tail hplace hstep)
  literal hplace hstep := AllWithin.emit (inv.literal hplace hstep)
  resume hplace hstep := inv.resume hplace hstep
  turn {_ _ _ step stack stack' inside inside' content content'} hplace hstep hstack hinside hcontent := by
    rcases hstack with ⟨rfl, hstack⟩
    unfold turn
    apply AllWithin.andThen
    . exact AllWithin.emit (inv.step hplace hstep)
    . unfold perform
      split
      . exact AllWithin.congruence.done
      . exact inv.printVariable hstack _ _
      . next inverted name body haction =>
        unfold Engine.enter
        split
        . exact AllWithin.congruence.fail _
        . next effectful callout hplan =>
          have hcall := inv.call hplace hstep haction hstack hplan
          apply AllWithin.andThen
          . exact AllWithin.emit hcall.1
          . split
            . exact AllWithin.congruence.fail _
            . next value hvalue =>
              split
              . exact AllWithin.congruence.fail _
              . next output houtput => exact AllWithin.emit (hcall.2 value output hvalue houtput)
        . next inners hplan =>
          apply AllWithin.each
          intro inner hinner
          have := inv.enter hplace hstep haction hstack hplan hinner
          exact hinside inner inner inverted name body haction ⟨rfl, this.1⟩ this.2
      . exact AllWithin.congruence.done
      . next name haction =>
        unfold Engine.insert
        split
        . exact AllWithin.congruence.fail _
        . next answer hanswer =>
          apply AllWithin.emit_andThen
          intro hseen
          have hloaded := inv.insert hplace hstep haction hanswer hseen
          refine ⟨hloaded.1, ?_⟩
          split
          . exact AllWithin.congruence.done
          . next inserted hinserted => exact hcontent inserted (hloaded.2 inserted hinserted)
      . exact AllWithin.congruence.done
      . exact AllWithin.congruence.done

theorem process {depth : Nat} {stack : Stack} {delims : Delimiters} {text : Bytes}
    (inv : engine.Invariant (engine.process depth stack delims text).events Stacks Places P)
    (hstack : Stacks stack) (hplace : Places text delims 0)
    : ∀ event ∈ (engine.process depth stack delims text).events, P event :=
  inv.simulation.process depth ⟨rfl, hstack⟩ hplace (List.Subset.refl _)

end Invariant

end Engine

end Mustache
