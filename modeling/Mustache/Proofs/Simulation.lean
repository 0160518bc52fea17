import Mustache.Proofs.Walk

/-!
This module contains the comparison of two renders of the same text, one turn at a time. `Reached`
holds of the places in texts where a turn can begin, `Stacks` relates the stacks of the two renders
there, and `Runs` relates what they do.
-/

namespace Mustache

namespace Run

structure Congruence (Runs : Run → Run → Prop) : Prop where
  done : Runs .done .done
  fail : ∀ failure, Runs (.fail failure) (.fail failure)
  andThen : ∀ {first first' : Run} {second second' : Unit → Run},
    Runs first first' → Runs (second ()) (second' ()) →
      Runs (first.andThen second) (first'.andThen second')

theorem Congruence.equality : Congruence (@Eq Run) where
  done := rfl
  fail _ := rfl
  andThen hfirst hsecond := by
    unfold Run.andThen
    rw [hfirst, hsecond]

theorem Congruence.each {Runs : Run → Run → Prop} {items : List α} {run run' : α → Run}
    (cong : Congruence Runs) (h : ∀ item ∈ items, Runs (run item) (run' item))
    : Runs (Run.each items run) (Run.each items run') := by
  induction items with
  | nil => exact cong.done
  | cons item items ih =>
    rw [each_cons, each_cons]
    apply cong.andThen
    . apply h
      simp
    . apply ih
      intro other hother
      apply h
      exact List.mem_cons_of_mem _ hother

end Run

namespace Engine

variable {engine engine' : Engine} {Runs : Run → Run → Prop}

theorem enter_related {inside inside' : Stack → Run} {stack : Stack} {inverted : Bool}
    {name body : Bytes} (cong : Run.Congruence Runs)
    (hcall : ∀ effectful callout,
      Runs (call effectful callout name body) (call effectful callout name body))
    (hinside : ∀ inner, Runs (inside inner) (inside' inner))
    : Runs (enter stack inverted name body inside) (enter stack inverted name body inside') := by
  unfold enter
  split
  . apply cong.fail
  . apply hcall
  . apply cong.each
    intro inner _
    apply hinside

theorem insert_related {content content' : Bytes → Run} {name : Bytes} (cong : Run.Congruence Runs)
    (hresolver : engine.resolver = engine'.resolver)
    (hloaded : ∀ answer, Runs (.emit (.loaded name answer)) (.emit (.loaded name answer)))
    (hcontent : ∀ inserted, Runs (content inserted) (content' inserted))
    : Runs (engine.insert content name) (engine'.insert content' name) := by
  unfold insert
  rw [hresolver]
  split
  . apply cong.fail
  . apply cong.andThen
    . apply hloaded
    . split
      . apply cong.done
      . apply hcontent

structure Simulation (engine engine' : Engine) (Reached : Bytes → Delimiters → Nat → Prop)
    (Stacks : Stack → Stack → Prop) (Runs : Run → Run → Prop) : Prop extends
    Run.Congruence Runs where
  tail : ∀ {text : Bytes} {delims : Delimiters} {pos : Nat},
    Reached text delims pos → Step.next? text delims pos = none →
      Runs (.emit (.tail delims (text.drop pos))) (.emit (.tail delims (text.drop pos)))
  literal : ∀ {text : Bytes} {delims : Delimiters} {pos : Nat} {step : Step},
    Reached text delims pos → Step.next? text delims pos = some step →
      Runs (.emit (.literal (Bytes.slice text pos step.tag.start)))
        (.emit (.literal (Bytes.slice text pos step.tag.start)))
  turn : ∀ {text : Bytes} {delims : Delimiters} {pos : Nat} {step : Step} {stack stack' : Stack}
    {inside inside' : Stack → Bytes → Run} {content content' : Bytes → Run},
    Reached text delims pos → Step.next? text delims pos = some step → Stacks stack stack' →
      (∀ inner inner' inverted name body, step.action = .enter inverted name body →
        Stacks inner inner' → Reached body step.delims 0 →
          Runs (inside inner body) (inside' inner' body)) →
      (∀ inserted, Reached inserted step.delims 0 → Runs (content inserted) (content' inserted)) →
        Runs (engine.turn stack inside content step) (engine'.turn stack' inside' content' step)
  resume : ∀ {text : Bytes} {delims : Delimiters} {pos : Nat} {step : Step},
    Reached text delims pos → Step.next? text delims pos = some step →
      Reached text step.next step.resume

namespace Simulation

variable {Reached : Bytes → Delimiters → Nat → Prop} {Stacks : Stack → Stack → Prop}

theorem walk (sim : Simulation engine engine' Reached Stacks Runs)
    {nested nested' : Stack → Delimiters → Bytes → Run}
    (hnested : ∀ stack stack' delims text, Stacks stack stack' → Reached text delims 0 →
      Runs (nested stack delims text) (nested' stack' delims text))
    {stack stack' : Stack} {delims : Delimiters} {text : Bytes} {pos : Nat}
    (hstack : Stacks stack stack') (hreached : Reached text delims pos)
    : Runs (engine.walk nested stack delims text pos) (engine'.walk nested' stack' delims text pos) := by
  cases hstep : Step.next? text delims pos with
  | none =>
    rw [walk_of_none engine _ _ hstep, walk_of_none engine' _ _ hstep]
    exact sim.tail hreached hstep
  | some step =>
    have := Step.next?_resume hstep
    rw [walk_of_some engine _ _ hstep, walk_of_some engine' _ _ hstep]
    apply sim.andThen
    . exact sim.literal hreached hstep
    . apply sim.andThen
      . apply sim.turn hreached hstep hstack
        . intro inner inner' inverted name body haction hinner hbody
          have := Step.next?_body hstep haction
          exact sim.walk hnested hinner hbody
        . intro inserted hinserted
          exact hnested _ _ _ _ hstack hinserted
      . exact sim.walk hnested hstack (sim.resume hreached hstep)
termination_by text.length - pos

theorem process (sim : Simulation engine engine' Reached Stacks Runs) (depth : Nat)
    {stack stack' : Stack} {delims : Delimiters} {text : Bytes}
    (hstack : Stacks stack stack') (hreached : Reached text delims 0)
    : Runs (engine.process depth stack delims text) (engine'.process depth stack' delims text) := by
  induction depth generalizing stack stack' delims text with
  | zero => exact sim.fail .tooDeep
  | succ depth ih =>
    rw [process_succ, process_succ]
    apply sim.walk
    . intro inner inner' delims text hinner htext
      exact ih hinner htext
    . exact hstack
    . exact hreached

end Simulation

end Engine

end Mustache
