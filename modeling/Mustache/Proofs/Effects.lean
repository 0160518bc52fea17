import Mustache.Proofs.Walk
import Mustache.Text.Html

/-!
This module contains the effects of renders: all that a render does that can fail, in the order in which
it does it, whether what comes before has failed or not. A render fails as its first effect that fails.
-/

namespace Mustache

/-- The number is too large to be compared. -/
def MagnitudeError.IsOverflow (error : MagnitudeError) : Prop :=
  error ≠ .signaling

def failureOf? (result : Except ε α) : Option ε :=
  match result with
  | .error reason => some reason
  | .ok _ => none

theorem failureOf?_eq_some_iff (result : Except ε α) (reason : ε)
    : failureOf? result = some reason ↔ result = .error reason := by
  cases result <;> simp [failureOf?]

inductive Effect where
  /-- The digits of an index are read, to find an item of a list. -/
  | index (digits : Nat)
  /-- The text of a value is made. -/
  | text (value : Value)
  /-- The value of a variable that drives a section is tested for emptiness. -/
  | test (value : Value)
  /-- A callout is called with the body of the section `name`. -/
  | call (name body : Bytes) (callout : Callout)
  | load (name : Bytes)
  /-- A text is entered, with so many levels of partials left. -/
  | nest (depth : Nat)

namespace Effect

inductive Raises (resolver : Resolver) : Effect → Failure → Prop where
  | index {digits : Nat} (h : Digits.limit < digits)
    : Raises resolver (.index digits) (.longIndex digits)
  | text {value : Value} (h : value.hasText = false)
    : Raises resolver (.text value) .longInteger
  | test {value : Value} {error : MagnitudeError} (h : value.isEmpty = .error error)
    : Raises resolver (.test value) (.magnitude error)
  /-- What rendering itself raises passes unchanged. -/
  | render {name body : Bytes} {callout : Callout} {error : RenderError}
    (h : callout.run body = .error (.render error))
    : Raises resolver (.call name body callout) (.render error)
  /-- All else is wrapped once, with the name of the section. -/
  | other {name body : Bytes} {callout : Callout} {text : String}
    (h : callout.run body = .error (.other text))
    : Raises resolver (.call name body callout) (.render (.callout name text))
  | load {name : Bytes} {failure : Failure} (h : resolver name = .error failure)
    : Raises resolver (.load name) failure
  | nest
    : Raises resolver (.nest 0) .tooDeep

def failure? (resolver : Resolver) (effect : Effect) : Option Failure :=
  match effect with
  | index digits => if Digits.limit < digits then some (.longIndex digits) else none
  | text value => failureOf? value.render?
  | test value => (failureOf? value.isEmpty).map .magnitude
  | call name body callout => (failureOf? (callout.run body)).map (Engine.calloutFailure name)
  | load name => failureOf? (resolver name)
  | nest depth => if depth = 0 then some .tooDeep else none

theorem failure?_text (resolver : Resolver) (value : Value)
    : (text value).failure? resolver = failureOf? value.render? := by
  rfl

theorem failure?_call (resolver : Resolver) (name body : Bytes) (callout : Callout)
    : (call name body callout).failure? resolver
        =
      (failureOf? (callout.run body)).map (Engine.calloutFailure name) := by
  rfl

theorem failure?_load (resolver : Resolver) (name : Bytes)
    : (load name).failure? resolver = failureOf? (resolver name) := by
  rfl

theorem failure?_eq_some_iff (resolver : Resolver) (effect : Effect) (failure : Failure)
    : effect.failure? resolver = some failure ↔ effect.Raises resolver failure := by
  constructor
  . intro h
    unfold failure? at h
    split at h
    . split at h
      . next hdigits =>
        rw [← Option.some.inj h]
        exact .index hdigits
      . contradiction
    . unfold Value.render? at h
      split at h
      . contradiction
      . next htext =>
        rw [← Option.some.inj h]
        exact .text (Bool.eq_false_iff.mpr htext)
    . rw [Option.map_eq_some_iff] at h
      rcases h with ⟨error, hempty, rfl⟩
      exact .test ((failureOf?_eq_some_iff _ _).mp hempty)
    . rw [Option.map_eq_some_iff] at h
      rcases h with ⟨reason, hrun, rfl⟩
      rw [failureOf?_eq_some_iff] at hrun
      cases reason with
      | render error => exact .render hrun
      | other text => exact .other hrun
    . exact .load ((failureOf?_eq_some_iff _ _).mp h)
    . split at h
      . next hdepth =>
        rw [← Option.some.inj h, hdepth]
        exact .nest
      . contradiction
  . intro h
    unfold failure?
    cases h with
    | index hdigits => exact if_pos hdigits
    | text htext => simp [Value.render?, htext, failureOf?]
    | test hempty => simp [hempty, failureOf?]
    | render hrun => simp [hrun, failureOf?, Engine.calloutFailure]
    | other hrun => simp [hrun, failureOf?, Engine.calloutFailure]
    | load hload => simp [hload, failureOf?]
    | nest => rfl

/-- The failure of the first effect that fails. -/
def first? (resolver : Resolver) (effects : List Effect) : Option Failure :=
  effects.findSome? (failure? resolver)

theorem first?_singleton (resolver : Resolver) (effect : Effect)
    : first? resolver [effect] = effect.failure? resolver := by
  unfold first?
  rw [List.findSome?_singleton]

theorem first?_cons (resolver : Resolver) (effect : Effect) (effects : List Effect)
    : first? resolver (effect :: effects) = (effect.failure? resolver).or (first? resolver effects) := by
  unfold first?
  rw [List.findSome?_cons]
  cases effect.failure? resolver <;> rfl

theorem first?_append (resolver : Resolver) (before after : List Effect)
    : first? resolver (before ++ after) = (first? resolver before).or (first? resolver after) := by
  unfold first?
  rw [List.findSome?_append]

theorem first?_eq_some_iff (resolver : Resolver) (effects : List Effect) (failure : Failure)
    : first? resolver effects = some failure
        ↔
      ∃ before effect after, effects = before ++ effect :: after
        ∧ (∀ earlier ∈ before, ∀ other, ¬ earlier.Raises resolver other)
        ∧ effect.Raises resolver failure := by
  unfold first?
  rw [List.findSome?_eq_some_iff]
  simp only [failure?_eq_some_iff, Option.eq_none_iff_forall_ne_some, ne_eq]
  constructor
  . rintro ⟨before, effect, after, heffects, hraises, hbefore⟩
    exact ⟨before, effect, after, heffects, hbefore, hraises⟩
  . rintro ⟨before, effect, after, heffects, hbefore, hraises⟩
    exact ⟨before, effect, after, heffects, hraises, hbefore⟩

end Effect

open Effect

namespace Context

def itemEffects (context : Context) (path : ItemPath) : List Effect :=
  match context path.list with
  | .list _ => [.index path.index.length]
  | _ => []

def readEffects (context : Context) (name : Bytes) : List Effect :=
  match context name with
  | .variable value => [.text value]
  | .absent =>
    match _h : ItemPath.ofName? name with
    | none => []
    | some path =>
      let inner :=
        match context.item? path with
        | .ok (some item) => readEffects item path.inner
        | _ => []
      context.itemEffects path ++ inner
  | _ => []
termination_by name.length
decreasing_by
  exact ItemPath.inner_length_lt _h

variable {resolver : Resolver}

theorem first?_itemEffects (context : Context) (path : ItemPath)
    : first? resolver (context.itemEffects path) = failureOf? (context.item? path) := by
  unfold itemEffects item?
  cases context path.list with
  | list items =>
    rw [first?_singleton]
    unfold failure?
    dsimp
    split <;> rfl
  | _ => rfl

theorem first?_readEffects (context : Context) (name : Bytes)
    : first? resolver (context.readEffects name) = failureOf? (context.read? name) := by
  rw [readEffects, read?]
  cases context name with
  | absent =>
    cases hpath : ItemPath.ofName? name with
    | none => rfl
    | some path =>
      have := ItemPath.inner_length_lt hpath
      dsimp
      rw [first?_append, first?_itemEffects]
      cases context.item? path with
      | error => rfl
      | ok item? =>
        cases item? with
        | none => rfl
        | some item =>
          dsimp
          rw [first?_readEffects item path.inner]
          cases item.read? path.inner <;> rfl
  | «variable» value =>
    dsimp
    rw [first?_singleton, failure?_text]
    cases value.render? <;> rfl
  | list => rfl
  | flag => rfl
  | callout => rfl
termination_by name.length

end Context

namespace Stack

def readEffects (stack : Stack) (name : Bytes) : List Effect :=
  match stack with
  | [] => []
  | context :: rest =>
    match context.read? name with
    | .ok none => context.readEffects name ++ readEffects rest name
    | _ => context.readEffects name

def itemEffects (stack : Stack) (path : ItemPath) : List Effect :=
  match stack with
  | [] => []
  | context :: rest =>
    match context.item? path with
    | .ok none => context.itemEffects path ++ itemEffects rest path
    | _ => context.itemEffects path

def probeEffects (stack : Stack) (name : Bytes) : List Effect :=
  match stack.bound? name with
  | some _ => []
  | none =>
    match ItemPath.ofName? name with
    | none => []
    | some path => stack.itemEffects path

variable {resolver : Resolver}

theorem first?_readEffects (stack : Stack) (name : Bytes)
    : first? resolver (stack.readEffects name) = failureOf? (stack.read name) := by
  induction stack with
  | nil => rfl
  | cons context rest ih =>
    have hread := @Context.first?_readEffects resolver context name
    unfold readEffects read
    cases h : context.read? name with
    | error =>
      rw [h] at hread
      exact hread
    | ok bytes? =>
      rw [h] at hread
      cases bytes? with
      | none =>
        dsimp
        rw [first?_append, hread, ih]
        rfl
      | some => exact hread

theorem first?_itemEffects (stack : Stack) (path : ItemPath)
    : first? resolver (stack.itemEffects path) = failureOf? (stack.itemBinding? path) := by
  induction stack with
  | nil => rfl
  | cons context rest ih =>
    have hitem := @Context.first?_itemEffects resolver context path
    unfold itemEffects itemBinding?
    cases h : context.item? path with
    | error =>
      rw [h] at hitem
      exact hitem
    | ok item? =>
      rw [h] at hitem
      cases item? with
      | none =>
        dsimp
        rw [first?_append, hitem, ih]
        rfl
      | some => exact hitem

theorem first?_probeEffects (stack : Stack) (name : Bytes)
    : first? resolver (stack.probeEffects name) = failureOf? (stack.probe name) := by
  unfold probeEffects probe
  cases stack.bound? name with
  | some => rfl
  | none =>
    cases ItemPath.ofName? name with
    | none => rfl
    | some path => exact first?_itemEffects stack path

end Stack

namespace Plan

/-- The effects of planning a section. -/
def effects (stack : Stack) (name : Bytes) : List Effect :=
  match stack.probe name with
  | .ok (some (.variable value)) => stack.probeEffects name ++ [.test value]
  | _ => stack.probeEffects name

theorem first?_effects {resolver : Resolver} (stack : Stack) (inverted : Bool) (name : Bytes)
    : first? resolver (effects stack name) = failureOf? (ofSection stack inverted name) := by
  have hprobe := @Stack.first?_probeEffects resolver stack name
  unfold effects ofSection
  cases h : stack.probe name with
  | error =>
    rw [h] at hprobe
    exact hprobe
  | ok binding? =>
    rw [h] at hprobe
    cases binding? with
    | none => cases inverted <;> exact hprobe
    | some binding =>
      cases binding with
      | absent => cases inverted <;> exact hprobe
      | flag => cases inverted <;> exact hprobe
      | list => cases inverted <;> exact hprobe
      | callout => cases inverted <;> exact hprobe
      | «variable» value =>
        dsimp
        rw [first?_append, hprobe, first?_singleton]
        unfold failure? positive Plan.inverted
        dsimp
        cases value.isEmpty <;> cases inverted <;> rfl

end Plan

namespace Callout

def effects (callout : Callout) (name body : Bytes) : List Effect :=
  match callout.run body with
  | .ok value => [.call name body callout, .text value]
  | .error _ => [.call name body callout]

end Callout

namespace Plan

def enterEffects (stack : Stack) (inverted : Bool) (name body : Bytes) (inside : Stack → List Effect)
    : List Effect :=
  let entered : List Effect :=
    match ofSection stack inverted name with
    | .error _ => []
    | .ok (.call _ callout) => callout.effects name body
    | .ok (.scopes inners) => inners.flatMap inside
  effects stack name ++ entered

end Plan

namespace Resolver

def insertEffects (resolver : Resolver) (nested : Bytes → List Effect) (name : Bytes) : List Effect :=
  match resolver name with
  | .ok ⟨some content, _⟩ => .load name :: nested content
  | _ => [.load name]

/-- The effects of rendering a text from `pos` on: those of a tag, then those of what follows it. -/
def walkEffects (resolver : Resolver) (nested : Stack → Delimiters → Bytes → List Effect) (stack : Stack)
    (delims : Delimiters) (text : Bytes) (pos : Nat) : List Effect :=
  match _hstep : Step.next? text delims pos with
  | .none => []
  | .some step =>
    let performed : List Effect :=
      match _haction : step.action with
      | .variable _ name => stack.readEffects name
      | .enter inverted name body =>
        Plan.enterEffects stack inverted name body fun inner =>
          resolver.walkEffects nested inner delims body 0
      | .insert name => resolver.insertEffects (nested stack delims) name
      | _ => []
    performed ++ resolver.walkEffects nested stack step.next text step.resume
termination_by text.length - pos
decreasing_by
  . have := Step.next?_body _hstep _haction
    omega
  . have := Step.next?_resume _hstep
    omega

/-- The effects of rendering a text in which partials are nested less than `depth` deep. -/
def effects (resolver : Resolver) (depth : Nat) (stack : Stack) (delims : Delimiters) (text : Bytes)
    : List Effect :=
  match depth with
  | 0 => [.nest 0]
  | depth + 1 => .nest (depth + 1) :: resolver.walkEffects (resolver.effects depth) stack delims text 0

def performEffects (resolver : Resolver) (stack : Stack) (inside : Stack → Bytes → List Effect)
    (nested : Bytes → List Effect) (action : Action) : List Effect :=
  match action with
  | .variable _ name => stack.readEffects name
  | .enter inverted name body => Plan.enterEffects stack inverted name body fun inner => inside inner body
  | .insert name => resolver.insertEffects nested name
  | _ => []

theorem walkEffects_of_none {text : Bytes} {delims : Delimiters} {pos : Nat} (resolver : Resolver)
    (nested : Stack → Delimiters → Bytes → List Effect) (stack : Stack)
    (h : Step.next? text delims pos = .none)
    : resolver.walkEffects nested stack delims text pos = [] := by
  rw [walkEffects]
  split
  . rfl
  . next hstep =>
    rw [h] at hstep
    contradiction

theorem walkEffects_of_some {text : Bytes} {delims : Delimiters} {pos : Nat} {step : Step}
    (resolver : Resolver) (nested : Stack → Delimiters → Bytes → List Effect) (stack : Stack)
    (h : Step.next? text delims pos = some step)
    : resolver.walkEffects nested stack delims text pos
        =
      resolver.performEffects stack (fun inner body => resolver.walkEffects nested inner delims body 0)
          (nested stack delims) step.action
        ++ resolver.walkEffects nested stack step.next text step.resume := by
  rw [walkEffects]
  split
  . next hstep =>
    rw [h] at hstep
    contradiction
  . next found hstep =>
    rw [h] at hstep
    injection hstep with hstep
    subst hstep
    dsimp
    congr
    unfold performEffects
    split
    . next haction => rw [haction]
    . next haction => rw [haction]
    . next haction => rw [haction]
    . next hvariable henter hinsert =>
      cases haction : step.action with
      | «variable» escaped name => exact absurd haction (hvariable escaped name)
      | enter inverted name body => exact absurd haction (henter inverted name body)
      | insert name => exact absurd haction (hinsert name)
      | comment | unclosed | delimiters | badDelimiters => rfl

end Resolver

namespace Run

/-- The run fails as the first of the effects that fails. -/
def FailsFirst (resolver : Resolver) (run : Run) (effects : List Effect) : Prop :=
  run.failure = first? resolver effects

namespace FailsFirst

variable {resolver : Resolver}

theorem done : Run.done.FailsFirst resolver [] := by
  rfl

theorem emit_andThen {event : Event} {second : Unit → Run} {effects : List Effect}
    (h : (second ()).FailsFirst resolver effects)
    : ((emit event).andThen second).FailsFirst resolver effects := by
  rw [Run.emit_andThen]
  exact h

theorem andThen {first : Run} {second : Unit → Run} {before after : List Effect}
    (hfirst : first.FailsFirst resolver before) (hsecond : (second ()).FailsFirst resolver after)
    : (first.andThen second).FailsFirst resolver (before ++ after) := by
  unfold FailsFirst at hfirst hsecond ⊢
  rw [first?_append, ← hfirst, ← hsecond]
  cases hfailure : first.failure with
  | none =>
    rw [andThen_of_ok second hfailure]
    rfl
  | some failure =>
    rw [andThen_of_failed second (by simp [hfailure]), hfailure]
    rfl

theorem each {items : List α} {run : α → Run} {effects : α → List Effect}
    (h : ∀ item, (run item).FailsFirst resolver (effects item))
    : (Run.each items run).FailsFirst resolver (items.flatMap effects) := by
  induction items with
  | nil => exact done
  | cons item items ih =>
    rw [each_cons, List.flatMap_cons]
    exact (h item).andThen ih

end FailsFirst

end Run

namespace Engine

open Run

variable {resolver : Resolver}

theorem call_failsFirst (effectful : Bool) (callout : Callout) (name body : Bytes)
    : (call effectful callout name body).FailsFirst resolver (callout.effects name body) := by
  unfold call
  apply FailsFirst.emit_andThen
  unfold FailsFirst Callout.effects
  cases h : callout.run body with
  | error reason =>
    dsimp
    rw [first?_singleton, failure?_call, h]
    rfl
  | ok value =>
    dsimp
    rw [first?_cons, first?_singleton, failure?_call, failure?_text, h]
    cases value.render? <;> rfl

theorem enter_failsFirst {stack : Stack} {inverted : Bool} {name body : Bytes} {inside : Stack → Run}
    {effects : Stack → List Effect} (hinside : ∀ inner, (inside inner).FailsFirst resolver (effects inner))
    : (enter stack inverted name body inside).FailsFirst resolver
        (Plan.enterEffects stack inverted name body effects) := by
  have hplan := @Plan.first?_effects resolver stack inverted name
  unfold FailsFirst enter Plan.enterEffects
  rw [first?_append, hplan]
  cases Plan.ofSection stack inverted name with
  | error => rfl
  | ok plan =>
    cases plan with
    | call effectful callout => exact call_failsFirst effectful callout name body
    | scopes inners => exact FailsFirst.each hinside

theorem printVariable_failsFirst (engine : Engine) (stack : Stack) (escaped : Bool) (name : Bytes)
    : (engine.printVariable stack escaped name).FailsFirst resolver (stack.readEffects name) := by
  unfold FailsFirst printVariable
  rw [Stack.first?_readEffects]
  cases stack.read name <;> rfl

theorem insert_failsFirst {engine : Engine} {content : Bytes → Run} {nested : Bytes → List Effect}
    (hcontent : ∀ text, (content text).FailsFirst engine.resolver (nested text)) (name : Bytes)
    : (engine.insert content name).FailsFirst engine.resolver
        (engine.resolver.insertEffects nested name) := by
  unfold insert Resolver.insertEffects
  cases h : engine.resolver name with
  | error reason =>
    unfold FailsFirst
    dsimp
    rw [first?_singleton, failure?_load, h]
    rfl
  | ok answer =>
    rcases answer with ⟨content?, remark⟩
    dsimp
    apply FailsFirst.emit_andThen
    cases content? with
    | none =>
      unfold FailsFirst
      dsimp
      rw [first?_singleton, failure?_load, h]
      rfl
    | some text =>
      unfold FailsFirst
      dsimp
      rw [first?_cons, failure?_load, h]
      exact hcontent text

theorem walk_failsFirst (engine : Engine) {nested : Stack → Delimiters → Bytes → Run}
    {effects : Stack → Delimiters → Bytes → List Effect}
    (hnested : ∀ stack delims text,
      (nested stack delims text).FailsFirst engine.resolver (effects stack delims text))
    (stack : Stack) (delims : Delimiters) (text : Bytes) (pos : Nat)
    : (engine.walk nested stack delims text pos).FailsFirst engine.resolver
        (engine.resolver.walkEffects effects stack delims text pos) := by
  cases hstep : Step.next? text delims pos with
  | none =>
    rw [walk_of_none engine nested stack hstep, Resolver.walkEffects_of_none _ _ stack hstep]
    rfl
  | some step =>
    have := Step.next?_resume hstep
    rw [walk_of_some engine nested stack hstep, Resolver.walkEffects_of_some _ _ stack hstep,
      Step.next?_delims hstep]
    apply FailsFirst.emit_andThen
    apply FailsFirst.andThen
    . unfold turn
      apply FailsFirst.emit_andThen
      cases haction : step.action with
      | «variable» escaped name => exact engine.printVariable_failsFirst stack escaped name
      | enter inverted name body =>
        have := Step.next?_body hstep haction
        apply enter_failsFirst
        intro inner
        exact engine.walk_failsFirst hnested inner delims body 0
      | insert name =>
        apply insert_failsFirst
        exact hnested stack delims
      | comment | unclosed | delimiters | badDelimiters => exact FailsFirst.done
    . exact engine.walk_failsFirst hnested stack step.next text step.resume
termination_by text.length - pos

theorem process_failsFirst (engine : Engine) (depth : Nat) (stack : Stack) (delims : Delimiters)
    (text : Bytes)
    : (engine.process depth stack delims text).FailsFirst engine.resolver
        (engine.resolver.effects depth stack delims text) := by
  induction depth generalizing stack delims text with
  | zero => rfl
  | succ depth ih =>
    rw [process_succ]
    exact engine.walk_failsFirst ih stack delims text 0

/--
A render fails as the first of its effects that fails, in the order of the text and inside out of
sections and partials, and only then. No other part of a template can fail it.
-/
theorem process_fails_iff (engine : Engine) (depth : Nat) (stack : Stack) (text : Bytes)
    (failure : Failure)
    : (engine.process depth stack .standard text).failure = some failure
        ↔
      ∃ before effect after, engine.resolver.effects depth stack .standard text = before ++ effect :: after
        ∧ (∀ earlier ∈ before, ∀ other, ¬ earlier.Raises engine.resolver other)
        ∧ effect.Raises engine.resolver failure := by
  rw [engine.process_failsFirst depth stack .standard text, first?_eq_some_iff]

/-- Too large a number is not the only one that cannot be tested for emptiness. -/
theorem process_fails_without_overflow
    : let engine : Engine := ⟨Html.escape, Resolver.none⟩
      let template := Bytes.ofAscii "{{#v}}{{/v}}"
      let stack : Stack := [Context.ofData [(.text "v", .decimal (.nan false true []))]]
      ¬ ∀ failure, (engine.process 1 stack .standard template).failure = some failure →
        ∃ before effect after, engine.resolver.effects 1 stack .standard template = before ++ effect :: after
          ∧ (∀ earlier ∈ before, ∀ other, ¬ earlier.Raises engine.resolver other)
          ∧ effect.Raises engine.resolver failure
          ∧ ∀ error, failure = .magnitude error → error.IsOverflow := by
  intro engine template stack hclaim
  have hfailure : (engine.process 1 stack .standard template).failure = some (.magnitude .signaling) := by
    decide +kernel
  rcases hclaim _ hfailure with ⟨_, _, _, _, _, _, hoverflow⟩
  exact hoverflow _ rfl rfl

end Engine

end Mustache
