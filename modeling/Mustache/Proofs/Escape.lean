import Mathlib.Data.List.Chain
import Mathlib.Data.List.Forall2
import Mustache.Proofs.Simulation

/-!
This module contains what the escape function has to do with a render: the output of each escaped
variable is the escape of one value, and nothing else depends on it.
-/

namespace Mustache

namespace Event

def isEscaped : Event → Bool
  | escaped .. => true
  | _ => false

def isEscapedTag : Event → Bool
  | .step tagged =>
    match tagged.action with
    | .variable asked _ => asked
    | _ => false
  | _ => false

/-- Events that differ at most in the function that the value of a variable was escaped with. -/
inductive Reescaped (f g : Bytes → Bytes) : Event → Event → Prop where
  | escaped (value : Bytes) : Reescaped f g (.escaped value (f value)) (.escaped value (g value))
  | same (event : Event) (h : event.isEscaped = false) : Reescaped f g event event

theorem Reescaped.call?_eq {f g : Bytes → Bytes} {event event' : Event}
    (h : Reescaped f g event event')
    : event.call? = event'.call? := by
  cases h with
  | escaped value => rfl
  | same => rfl

end Event

namespace Run

structure Lockstep (Events : Event → Event → Prop) (run run' : Run) : Prop where
  events : List.Forall₂ Events run.events run'.events
  failure : run.failure = run'.failure

namespace Lockstep

variable {Events : Event → Event → Prop}

theorem emit {event event' : Event} (h : Events event event')
    : Lockstep Events (.emit event) (.emit event') :=
  ⟨.cons h .nil, rfl⟩

theorem congruence : Congruence (Lockstep Events) where
  done := ⟨.nil, rfl⟩
  fail _ := ⟨.nil, rfl⟩
  andThen {_ _ second second'} hfirst hsecond := by
    cases andThen_alike second second' hfirst.failure with
    | inl hends =>
      rw [hends.1, hends.2]
      exact hfirst
    | inr hgoes =>
      rw [hgoes.1, hgoes.2]
      exact ⟨List.rel_append hfirst.events hsecond.events, hsecond.failure⟩

theorem calls_eq {run run' : Run} (h : Lockstep Events run run')
    (hcall : ∀ event event', Events event event' → event.call? = event'.call?)
    : run.calls = run'.calls := by
  have hevents := h.events
  unfold calls
  generalize run.events = events at hevents
  generalize run'.events = events' at hevents
  induction hevents with
  | nil => rfl
  | cons hevent _ ih => rw [List.filterMap_cons, List.filterMap_cons, hcall _ _ hevent, ih]

end Lockstep

/--
The output of an escaped variable comes right after its tag, and nowhere else. A run that fails may
break off between the two.
-/
structure Paired (run : Run) : Prop where
  chain : run.events.IsChain fun event next => event.isEscapedTag = next.isEscaped
  first : ∀ event ∈ run.events.head?, event.isEscaped = false
  last : run.failure = none → ∀ event ∈ run.events.getLast?, event.isEscapedTag = false

namespace Paired

theorem emit {event : Event} (hescaped : event.isEscaped = false) (htag : event.isEscapedTag = false)
    : Paired (.emit event) where
  chain := List.isChain_singleton event
  first := by simp [Run.emit, hescaped]
  last := by simp [Run.emit, htag]

theorem andThen {first : Run} {second : Unit → Run} (hfirst : Paired first)
    (hsecond : Paired (second ()))
    : Paired (first.andThen second) := by
  cases hfailure : first.failure with
  | some =>
    rw [andThen_of_failed]
    . exact hfirst
    . rw [hfailure]
      simp
  | none =>
    rw [andThen_of_ok _ hfailure]
    constructor
    . rw [List.isChain_append]
      refine ⟨hfirst.chain, hsecond.chain, ?_⟩
      intro event hevent next hnext
      rw [hfirst.last hfailure event hevent, hsecond.first next hnext]
    . intro event hevent
      rw [List.head?_append, Option.mem_def, Option.or_eq_some_iff] at hevent
      cases hevent with
      | inl hevent => exact hfirst.first event hevent
      | inr hevent => exact hsecond.first event hevent.2
    . intro hok event hevent
      rw [List.getLast?_append, Option.mem_def, Option.or_eq_some_iff] at hevent
      cases hevent with
      | inl hevent => exact hsecond.last hok event hevent
      | inr hevent => exact hfirst.last hfailure event hevent.2

theorem congruence : Congruence fun run _ => Paired run where
  done := ⟨.nil, by simp [Run.done], by simp [Run.done]⟩
  fail _ := ⟨.nil, by simp [Run.fail], by simp [Run.fail]⟩
  andThen hfirst hsecond := hfirst.andThen hsecond

end Paired

end Run

namespace Engine

open Run

theorem call_related {Runs : Run → Run → Prop} {callout : Callout} {name body : Bytes}
    (effectful : Bool) (cong : Congruence Runs)
    (hcalled : ∀ label, Runs (.emit (.called effectful label name body))
      (.emit (.called effectful label name body)))
    (hresult : ∀ output, Runs (.emit (.result output)) (.emit (.result output)))
    : Runs (call effectful callout name body) (call effectful callout name body) := by
  unfold call
  apply cong.andThen
  . apply hcalled
  . split
    . apply cong.fail
    . split
      . apply cong.fail
      . apply hresult

theorem turn_related {engine engine' : Engine} {Runs : Run → Run → Prop} {stack : Stack}
    {inside inside' : Stack → Bytes → Run} {content content' : Bytes → Run} {step : Step}
    (cong : Congruence Runs) (hresolver : engine.resolver = engine'.resolver)
    (hemit : ∀ event, event.isEscaped = false → event.isEscapedTag = false →
      Runs (.emit event) (.emit event))
    (hvariable : ∀ escaped name, step.action = .variable escaped name →
      Runs ((Run.emit (.step step)).andThen fun _ => engine.printVariable stack escaped name)
        ((Run.emit (.step step)).andThen fun _ => engine'.printVariable stack escaped name))
    (hinside : ∀ inner inverted name body, step.action = .enter inverted name body →
      Runs (inside inner body) (inside' inner body))
    (hcontent : ∀ inserted, Runs (content inserted) (content' inserted))
    : Runs (engine.turn stack inside content step) (engine'.turn stack inside' content' step) := by
  have hstep (h : (Event.step step).isEscapedTag = false)
      (hperform : Runs (engine.perform stack inside content step.action)
        (engine'.perform stack inside' content' step.action))
      : Runs (engine.turn stack inside content step) (engine'.turn stack inside' content' step) :=
    cong.andThen (hemit _ rfl h) hperform
  cases haction : step.action with
  | «variable» escaped name =>
    unfold turn
    rw [haction]
    exact hvariable escaped name haction
  | enter inverted name body =>
    apply hstep
    . simp [Event.isEscapedTag, haction]
    . rw [haction]
      apply enter_related cong
      . intro effectful callout
        apply call_related _ cong
        . intro label
          apply hemit <;> rfl
        . intro output
          apply hemit <;> rfl
      . intro inner
        exact hinside _ _ _ _ haction
  | insert name =>
    apply hstep
    . simp [Event.isEscapedTag, haction]
    . rw [haction]
      apply insert_related cong hresolver
      . intro answer
        apply hemit <;> rfl
      . exact hcontent
  | comment | unclosed | delimiters | badDelimiters =>
    apply hstep
    . simp [Event.isEscapedTag, haction]
    . rw [haction]
      exact cong.done

theorem reescaped_simulation (f g : Bytes → Bytes) (resolver : Resolver)
    : Simulation ⟨f, resolver⟩ ⟨g, resolver⟩ (fun _ _ _ => True) Eq
        (Lockstep (Event.Reescaped f g)) where
  toCongruence := Lockstep.congruence
  tail _ _ := Lockstep.emit (.same _ rfl)
  literal _ _ := Lockstep.emit (.same _ rfl)
  resume _ _ := trivial
  turn {_ _ _ step stack stack' _ _ _ _} _ _ hstack hinside hcontent := by
    subst hstack
    apply turn_related Lockstep.congruence
    . rfl
    . intro event hescaped _
      exact Lockstep.emit (.same event hescaped)
    . intro escaped name haction
      apply Lockstep.congruence.andThen
      . exact Lockstep.emit (.same _ rfl)
      . unfold printVariable
        split
        . apply Lockstep.congruence.fail
        . next value _ =>
          apply Lockstep.emit
          cases escaped with
          | true => exact .escaped value
          | false => exact .same _ rfl
    . intro inner inverted name body haction
      exact hinside _ _ _ _ _ haction rfl trivial
    . intro inserted
      exact hcontent inserted trivial

theorem paired_variable (engine : Engine) (stack : Stack) {step : Step} {escaped : Bool}
    {name : Bytes} (haction : step.action = .variable escaped name)
    : Paired ((Run.emit (.step step)).andThen fun _ => engine.printVariable stack escaped name) := by
  have htag : (Event.step step).isEscapedTag = escaped := by simp [Event.isEscapedTag, haction]
  rw [emit_andThen]
  unfold printVariable
  split
  . constructor
    . exact List.isChain_singleton _
    . simp [Event.isEscaped]
    . simp [Run.fail]
  . next value _ =>
    cases escaped with
    | true =>
      constructor
      . simp [Run.emit, htag, Event.isEscaped]
      . simp [Event.isEscaped]
      . simp [Run.emit, Event.isEscapedTag]
    | false =>
      constructor
      . simp [Run.emit, htag, Event.isEscaped]
      . simp [Event.isEscaped]
      . simp [Run.emit, Event.isEscapedTag]

theorem paired_simulation (engine : Engine)
    : Simulation engine engine (fun _ _ _ => True) Eq fun run _ => Paired run where
  toCongruence := Paired.congruence
  tail _ _ := Paired.emit rfl rfl
  literal _ _ := Paired.emit rfl rfl
  resume _ _ := trivial
  turn {_ _ _ step stack stack' inside inside' content content'} _ _ hstack hinside hcontent := by
    subst hstack
    apply @turn_related engine engine _ stack inside inside' content content' step Paired.congruence rfl
    . intro event hescaped htag
      exact Paired.emit hescaped htag
    . intro escaped name haction
      exact paired_variable engine stack haction
    . intro inner inverted name body haction
      exact hinside _ _ _ _ _ haction rfl trivial
    . intro inserted
      exact hcontent inserted trivial

/--
The runs with two escape functions `f` and `g` do the same in the same order, except that what the
first outputs as `f value` right after the tag of an escaped variable, the second outputs as `g value`.
-/
theorem escape_applied_once (f g : Bytes → Bytes) (resolver : Resolver) (depth : Nat) (stack : Stack)
    (delims : Delimiters) (text : Bytes)
    : let run := process ⟨f, resolver⟩ depth stack delims text
      let run' := process ⟨g, resolver⟩ depth stack delims text
      List.Forall₂ (Event.Reescaped f g) run.events run'.events
        ∧ run.calls = run'.calls
        ∧ run.failure = run'.failure
        ∧ run.Paired
        ∧ run'.Paired := by
  intro run run'
  have hlockstep : Lockstep (Event.Reescaped f g) run run' :=
    (reescaped_simulation f g resolver).process depth rfl trivial
  refine ⟨hlockstep.events, ?_, hlockstep.failure, ?_, ?_⟩
  . apply hlockstep.calls_eq
    intro event event' hevent
    exact hevent.call?_eq
  . exact (paired_simulation _).process depth rfl trivial
  . exact (paired_simulation _).process depth rfl trivial

end Engine

end Mustache
