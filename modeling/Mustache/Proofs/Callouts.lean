import Mustache.Proofs.Agree
import Mustache.Proofs.Invariant
import Mustache.Proofs.Knows
import Mustache.Proofs.Mute
import Mustache.Text.Html

/-!
This module contains what callouts have to do with a render: they are given bodies in the order of the
text, what they return is output as it is, and nothing but that depends on it.
-/

namespace Mustache

/-- The output of a callout for the section `name`. It fails as well if the result has no text. -/
def Callout.output (callout : Callout) (name body : Bytes) : Except Failure Bytes :=
  match callout.run body with
  | .error failure => .error (Engine.calloutFailure name failure)
  | .ok value => value.render?

namespace Event

def body? (event : Event) : Option Bytes :=
  match event with
  | called _ _ _ body => some body
  | _ => none

def isResult (event : Event) : Bool :=
  match event with
  | result _ => true
  | _ => false

/-- The event without what a callout returned. -/
def hush (event : Event) : Event :=
  match event with
  | result _ => .result []
  | _ => event

theorem body?_hush (event : Event) : event.hush.body? = event.body? := by
  cases event <;> rfl

end Event

namespace Run

def bodies (run : Run) : List Bytes :=
  run.events.filterMap Event.body?

/-- All that a run does, without what callouts return. -/
def trace (run : Run) : List Event :=
  run.events.map Event.hush

/-- The last event is a call, which has no result: the callout failed. -/
def EndsInCall (run : Run) : Prop :=
  ∃ event ∈ run.events.getLast?, event.isCall = true

theorem bodies_eq (run : Run) : run.bodies = run.trace.filterMap Event.body? := by
  unfold bodies trace
  rw [List.filterMap_map]
  congr
  funext event
  exact event.body?_hush.symm

theorem trace_isPrefix_andThen (first : Run) (second : Unit → Run) : first.trace <+: (first.andThen second).trace := by
  cases hfailure : first.failure with
  | some =>
    refine ⟨[], ?_⟩
    rw [List.append_nil, andThen_of_failed second (by simp [hfailure])]
  | none =>
    rw [andThen_of_ok second hfailure]
    unfold trace
    rw [List.map_append]
    exact List.prefix_append _ _

/-- The run does what a run of muted callouts does, up to the end or up to a callout that fails. -/
inductive Follows (run muted : Run) : Prop where
  | whole (trace : run.trace = muted.trace) (failure : run.failure = muted.failure)
  | stopped (trace : run.trace <+: muted.trace) (failure : run.failure ≠ none) (last : run.EndsInCall)

namespace Follows

theorem refl (run : Run) : run.Follows run := .whole rfl rfl

theorem andThen {first first' : Run} {second second' : Unit → Run} (hfirst : first.Follows first')
    (hsecond : (second ()).Follows (second' ()))
    : (first.andThen second).Follows (first'.andThen second') := by
  cases hfirst with
  | stopped htrace hfailure hlast =>
    rw [andThen_of_failed second hfailure]
    exact .stopped (htrace.trans (trace_isPrefix_andThen first' second')) hfailure hlast
  | whole htrace hfailure =>
    cases andThen_alike second second' hfailure with
    | inl hends =>
      rw [hends.1, hends.2]
      exact .whole htrace hfailure
    | inr hgoes =>
      rw [hgoes.1, hgoes.2]
      unfold trace at htrace
      cases hsecond with
      | whole htrace' hfailure' =>
        refine .whole ?_ hfailure'
        unfold trace at htrace' ⊢
        rw [List.map_append, List.map_append, htrace, htrace']
      | stopped htrace' hfailure' hlast =>
        refine .stopped ?_ hfailure' ?_
        . unfold trace at htrace' ⊢
          rw [List.map_append, List.map_append, htrace, List.prefix_append_right_inj]
          exact htrace'
        . rcases hlast with ⟨event, hevent, hcall⟩
          refine ⟨event, ?_, hcall⟩
          rw [List.getLast?_append, hevent]
          rfl

theorem congruence : Congruence Follows where
  done := refl _
  fail _ := refl _
  andThen := andThen

theorem comparable {run run' muted : Run} (h : run.Follows muted) (h' : run'.Follows muted)
    : run.trace <+: run'.trace ∨ run'.trace <+: run.trace := by
  have hgoes : ∀ {run : Run}, run.Follows muted → run.trace <+: muted.trace := by
    intro run h
    cases h with
    | whole htrace => exact ⟨[], (List.append_nil _).trans htrace⟩
    | stopped htrace => exact htrace
  exact List.prefix_or_prefix_of_prefix (hgoes h) (hgoes h')

theorem eq_of_whole {run run' muted : Run} (h : run.Follows muted) (h' : run'.Follows muted)
    (hends : ¬ run.EndsInCall) (hends' : ¬ run'.EndsInCall)
    : run.trace = run'.trace ∧ run.failure = run'.failure := by
  cases h with
  | stopped _ _ hlast => exact absurd hlast hends
  | whole htrace hfailure =>
    cases h' with
    | stopped _ _ hlast => exact absurd hlast hends'
    | whole htrace' hfailure' => exact ⟨htrace.trans htrace'.symm, hfailure.trans hfailure'.symm⟩

end Follows

/--
How the events right before and after an event fit it. A call follows the tag of its section, and
leads to its result or ends the run; a result follows a call.
-/
def Fits (root : Stack) (failure : Option Failure) (before : List Event) (event : Event)
    (after : List Event) : Prop :=
  match event with
  | .called effectful label name body =>
    (∃ earlier tagged inverted, before = earlier ++ [.step tagged]
        ∧ tagged.action = .enter inverted name body)
      ∧ ∃ callout, root.Knows (.callout effectful callout) ∧ callout.label = label
        ∧ match callout.output name body with
          | .ok output => ∃ rest, after = .result output :: rest
          | .error reason => after = [] ∧ failure = some reason
  | .result _ =>
    ∃ earlier effectful label name body, before = earlier ++ [.called effectful label name body]
  | _ => True

def Orderly (root : Stack) (run : Run) : Prop :=
  ∀ before event after, run.events = before ++ event :: after →
    Fits root run.failure before event after

theorem forall_split_cons {fits : List Event → Event → List Event → Prop} {first : Event}
    {rest : List Event} (hfirst : fits [] first rest)
    (hrest : ∀ before event after, rest = before ++ event :: after → fits (first :: before) event after)
    : ∀ before event after, first :: rest = before ++ event :: after → fits before event after := by
  intro before event after h
  rcases List.cons_eq_append_iff.mp h with ⟨rfl, hevent⟩ | ⟨middle, rfl, hmiddle⟩
  . injection hevent with hevent hafter
    rw [hevent, hafter]
    exact hfirst
  . exact hrest middle event after hmiddle

theorem Fits.append_left {root : Stack} {failure : Option Failure} {before after : List Event}
    {event : Event} (h : Fits root failure before event after) (more : List Event)
    : Fits root failure (more ++ before) event after := by
  cases event with
  | called effectful label name body =>
    rcases h with ⟨⟨earlier, tagged, inverted, rfl, haction⟩, hafter⟩
    exact ⟨⟨more ++ earlier, tagged, inverted, (List.append_assoc ..).symm, haction⟩, hafter⟩
  | result output =>
    rcases h with ⟨earlier, effectful, label, name, body, rfl⟩
    exact ⟨more ++ earlier, effectful, label, name, body, (List.append_assoc ..).symm⟩
  | _ => trivial

theorem Fits.append_right {root : Stack} {failure : Option Failure} {before after : List Event}
    {event : Event} (h : Fits root none before event after) (more : List Event)
    : Fits root failure before event (after ++ more) := by
  cases event with
  | called effectful label name body =>
    rcases h with ⟨hbefore, callout, hknows, hlabel, hafter⟩
    refine ⟨hbefore, callout, hknows, hlabel, ?_⟩
    cases houtput : callout.output name body with
    | error reason =>
      rw [houtput] at hafter
      have := hafter.2
      contradiction
    | ok output =>
      rw [houtput] at hafter
      rcases hafter with ⟨rest, rfl⟩
      exact ⟨rest ++ more, rfl⟩
  | result output => exact h
  | _ => trivial

namespace Orderly

variable {root : Stack}

theorem emit {event : Event} (hcall : event.isCall = false) (hresult : event.isResult = false)
    : (emit event).Orderly root := by
  intro before found after h
  have hfound : found = event := by
    have : found ∈ (Run.emit event).events := by
      rw [h]
      simp
    exact List.mem_singleton.mp this
  subst hfound
  cases found with
  | called => contradiction
  | result => contradiction
  | _ => trivial

theorem andThen {first : Run} {second : Unit → Run} (hfirst : first.Orderly root)
    (hsecond : (second ()).Orderly root)
    : (first.andThen second).Orderly root := by
  cases hfailure : first.failure with
  | some =>
    rw [andThen_of_failed second (by simp [hfailure])]
    exact hfirst
  | none =>
    rw [andThen_of_ok second hfailure]
    intro before event after h
    rw [List.append_eq_append_iff] at h
    rcases h with ⟨more, rfl, hevents⟩ | ⟨more, hevents, hafter⟩
    . exact (hsecond more event after hevents).append_left first.events
    . cases more with
      | nil =>
        rw [List.append_nil] at hevents
        rw [← hevents]
        have := hsecond [] event after hafter.symm
        have := this.append_left first.events
        rwa [List.append_nil] at this
      | cons event' more =>
        rw [List.cons_append, List.cons.injEq] at hafter
        rw [← hafter.1] at hevents
        rw [hafter.2]
        have := hfirst before event more hevents
        rw [hfailure] at this
        exact this.append_right _

theorem congruence : Congruence fun run _ => run.Orderly root where
  done := by simp [Orderly, done]
  fail := by simp [Orderly, fail]
  andThen := andThen

theorem each {items : List α} {run : α → Run} (h : ∀ item ∈ items, (run item).Orderly root)
    : (Run.each items run).Orderly root :=
  @Congruence.each α (fun run _ => run.Orderly root) items run run congruence h

end Orderly

/-- The text stands in the template, or in a partial that was loaded. -/
def Supplies (template : Bytes) (events : List Event) (text : Bytes) : Prop :=
  text <:+: template
    ∨ ∃ name answer content, .loaded name answer ∈ events ∧ answer.content = some content
      ∧ text <:+: content

theorem Supplies.of_infix {template text body : Bytes} {events : List Event}
    (h : Supplies template events text) (hbody : body <:+: text)
    : Supplies template events body := by
  rcases h with htext | ⟨name, answer, content, hloaded, hcontent, htext⟩
  . exact .inl (hbody.trans htext)
  . exact .inr ⟨name, answer, content, hloaded, hcontent, hbody.trans htext⟩

end Run

namespace Engine

open Run

theorem call_eq (effectful : Bool) (callout : Callout) (name body : Bytes)
    : call effectful callout name body
        =
      match callout.output name body with
      | .error reason => ⟨[.called effectful callout.label name body], some reason⟩
      | .ok output => ⟨[.called effectful callout.label name body, .result output], none⟩ := by
  unfold call Callout.output
  rw [emit_andThen]
  cases callout.run body with
  | error => rfl
  | ok value =>
    dsimp
    cases value.render? <;> rfl

theorem call_follows (effectful : Bool) (callout : Callout) (name body : Bytes)
    : (call effectful callout name body).Follows (call effectful callout.mute name body) := by
  have hmute : callout.mute.output name body = .ok (Utf8.encode "None") := rfl
  rw [call_eq, call_eq, hmute]
  cases callout.output name body with
  | ok output => exact .whole rfl rfl
  | error failure =>
    apply Follows.stopped
    . exact ⟨[.result []], rfl⟩
    . simp
    . exact ⟨_, rfl, rfl⟩

theorem enter_follows {stack : Stack} {inverted : Bool} {name body : Bytes} {inside inside' : Stack → Run}
    (hinside : ∀ inner, (inside inner).Follows (inside' inner.mute))
    : (enter stack inverted name body inside).Follows (enter stack.mute inverted name body inside') := by
  unfold enter
  rw [Plan.ofSection_mute]
  cases Plan.ofSection stack inverted name with
  | error => exact .refl _
  | ok plan =>
    cases plan with
    | call effectful callout => exact call_follows effectful callout name body
    | scopes inners =>
      dsimp [Except.map, Plan.mute]
      rw [each_map]
      apply Follows.congruence.each
      intro inner _
      exact hinside inner

theorem printVariable_mute (engine : Engine) (stack : Stack) (escaped : Bool) (name : Bytes)
    : engine.printVariable stack.mute escaped name = engine.printVariable stack escaped name := by
  unfold printVariable
  rw [Stack.read_mute]

theorem mute_simulation (engine : Engine)
    : Simulation engine engine (fun _ _ _ => True) (fun stack muted => muted = stack.mute)
        Run.Follows where
  toCongruence := Follows.congruence
  tail _ _ := .refl _
  literal _ _ := .refl _
  resume _ _ := trivial
  turn {_ _ _ step stack muted inside inside' content content'} _ _ hmuted hinside hcontent := by
    subst hmuted
    unfold turn
    apply Follows.andThen
    . exact .refl _
    . cases haction : step.action with
      | «variable» escaped name =>
        unfold perform
        dsimp
        rw [printVariable_mute]
        exact .refl _
      | enter inverted name body =>
        apply enter_follows
        intro inner
        exact hinside _ _ _ _ _ haction rfl trivial
      | insert name =>
        apply insert_related Follows.congruence rfl
        . intro answer
          exact .refl _
        . intro inserted
          exact hcontent inserted trivial
      | comment | unclosed | delimiters | badDelimiters => exact .refl _

theorem orderly_call {root : Stack} {step : Step} {inverted effectful : Bool} {name body : Bytes}
    {callout : Callout} (haction : step.action = .enter inverted name body)
    (hknows : root.Knows (.callout effectful callout))
    : ((Run.emit (.step step)).andThen fun _ => call effectful callout name body).Orderly root := by
  rw [emit_andThen, call_eq]
  have hbefore : ∃ earlier tagged inverted, [Event.step step] = earlier ++ [.step tagged]
      ∧ tagged.action = .enter inverted name body := ⟨[], step, inverted, rfl, haction⟩
  unfold Orderly
  cases houtput : callout.output name body with
  | error reason =>
    refine forall_split_cons trivial (forall_split_cons ⟨hbefore, callout, hknows, rfl, ?_⟩ ?_)
    . rw [houtput]
      exact ⟨rfl, rfl⟩
    . simp
  | ok output =>
    refine forall_split_cons trivial
      (forall_split_cons ⟨hbefore, callout, hknows, rfl, ?_⟩ (forall_split_cons ?_ ?_))
    . rw [houtput]
      exact ⟨[], rfl⟩
    . exact ⟨[.step step], effectful, callout.label, name, body, rfl⟩
    . simp

theorem orderly_simulation (engine : Engine) (root : Stack)
    : Simulation engine engine (fun _ _ _ => True)
        (fun stack stack' => stack = stack' ∧ ∀ binding, stack.Knows binding → root.Knows binding)
        fun run _ => run.Orderly root where
  toCongruence := Orderly.congruence
  tail _ _ := Orderly.emit rfl rfl
  literal _ _ := Orderly.emit rfl rfl
  resume _ _ := trivial
  turn {_ _ _ step stack stack' inside inside' content content'} _ _ hstack hinside hcontent := by
    rcases hstack with ⟨rfl, hstack⟩
    have hstep : (Run.emit (.step step)).Orderly root := Orderly.emit rfl rfl
    unfold turn
    cases haction : step.action with
    | «variable» escaped name =>
      apply hstep.andThen
      unfold perform printVariable
      dsimp
      split
      . exact Orderly.congruence.fail _
      . split <;> exact Orderly.emit rfl rfl
    | enter inverted name body =>
      unfold perform enter
      dsimp
      split
      . exact hstep.andThen (Orderly.congruence.fail _)
      . next effectful callout hplan =>
        exact orderly_call haction (hstack _ (Plan.knows_of_call hplan))
      . next inners hplan =>
        apply hstep.andThen
        apply Orderly.each
        intro inner hinner
        apply hinside inner inner inverted name body haction _ trivial
        refine ⟨rfl, ?_⟩
        intro binding hbinding
        exact hstack _ (Plan.knows_of_scopes hplan hinner hbinding)
    | insert name =>
      apply hstep.andThen
      unfold perform insert
      dsimp
      split
      . exact Orderly.congruence.fail _
      . apply Orderly.andThen
        . exact Orderly.emit rfl rfl
        . split
          . exact Orderly.congruence.done
          . next inserted _ => exact hcontent inserted trivial
    | comment | unclosed | delimiters | badDelimiters =>
      exact hstep.andThen Orderly.congruence.done

theorem supplies_of_body?_eq_none {template : Bytes} {seen : List Event} {event : Event}
    (h : event.body? = none)
    : ∀ body, event.body? = some body → Supplies template seen body := by
  intro body hbody
  rw [h] at hbody
  contradiction

theorem supplies_invariant (engine : Engine) (template : Bytes) (seen : List Event)
    : engine.Invariant seen (fun _ => True) (fun text _ _ => Supplies template seen text)
        fun event => ∀ body, event.body? = some body → Supplies template seen body where
  tail _ _ := supplies_of_body?_eq_none rfl
  literal _ _ := supplies_of_body?_eq_none rfl
  step _ _ := supplies_of_body?_eq_none rfl
  resume hplace _ := hplace
  print _ _ := ⟨supplies_of_body?_eq_none rfl, supplies_of_body?_eq_none rfl⟩
  call {_ _ _ _ _ _ _ body _ _} hplace hstep haction _ _ := by
    refine ⟨?_, fun _ _ _ _ => supplies_of_body?_eq_none rfl⟩
    intro found hfound
    injection hfound with hfound
    rw [← hfound]
    exact hplace.of_infix (Step.infix_of_next? hstep haction)
  enter hplace hstep haction _ _ _ :=
    ⟨trivial, hplace.of_infix (Step.infix_of_next? hstep haction)⟩
  insert _ _ _ _ hseen := by
    refine ⟨supplies_of_body?_eq_none rfl, ?_⟩
    intro content hcontent
    exact .inr ⟨_, _, content, hseen, hcontent, List.infix_refl _⟩

end Engine

end Mustache
