import Mustache.Proofs.Run
import Mustache.Proofs.Step

/-!
This module contains the renderer as the repetition of one turn: find a tag, emit the text before it,
do what it asks for, go on behind it. The lemmas about `walk` are stated with `perform`, which is all
that a tag does, and never unfold the loop.
-/

namespace Mustache

namespace Engine

/-- A section. The body is rendered by `inside`, unless it goes to a callout. -/
def enter (stack : Stack) (inverted : Bool) (name body : Bytes) (inside : Stack → Run) : Run :=
  match Plan.ofSection stack inverted name with
  | .error failure => .fail failure
  | .ok (.call effectful callout) => call effectful callout name body
  | .ok (.scopes inners) => Run.each inners inside

/-- What a tag does. The body of a section is rendered by `inside`, and partials are by `content`. -/
def perform (engine : Engine) (stack : Stack) (inside : Stack → Bytes → Run) (content : Bytes → Run)
    (action : Action) : Run :=
  match action with
  | .comment => .done
  | .variable escaped name => engine.printVariable stack escaped name
  | .enter inverted name body => enter stack inverted name body fun inner => inside inner body
  | .unclosed .. => .done
  | .insert name => engine.insert content name
  | .delimiters _ => .done
  | .badDelimiters _ => .done

def turn (engine : Engine) (stack : Stack) (inside : Stack → Bytes → Run) (content : Bytes → Run)
    (step : Step) : Run :=
  (Run.emit (.step step)).andThen fun _ => engine.perform stack inside content step.action

theorem walk_of_none {text : Bytes} {delims : Delimiters} {pos : Nat} (engine : Engine)
    (nested : Stack → Delimiters → Bytes → Run) (stack : Stack)
    (h : Step.next? text delims pos = none)
    : engine.walk nested stack delims text pos = .emit (.tail delims (text.drop pos)) := by
  rw [walk]
  split
  . rfl
  . next hstep =>
    rw [h] at hstep
    contradiction

theorem walk_of_some {text : Bytes} {delims : Delimiters} {pos : Nat} {step : Step} (engine : Engine)
    (nested : Stack → Delimiters → Bytes → Run) (stack : Stack)
    (h : Step.next? text delims pos = some step)
    : engine.walk nested stack delims text pos
        =
      (Run.emit (.literal (Bytes.slice text pos step.tag.start))).andThen fun _ =>
        (engine.turn stack (fun inner body => engine.walk nested inner step.delims body 0)
          (nested stack step.delims) step).andThen fun _ =>
            engine.walk nested stack step.next text step.resume := by
  rw [walk]
  split
  . next hstep =>
    rw [h] at hstep
    contradiction
  . next found hstep =>
    rw [h] at hstep
    injection hstep with hstep
    subst hstep
    dsimp
    unfold turn
    rw [Run.andThen_assoc, Run.andThen_assoc, Run.andThen_assoc]
    rw [Step.next?_delims h]
    congr
    funext
    congr
    funext
    congr
    split
    all_goals
      next haction =>
        rw [haction]
        rfl

theorem process_succ (engine : Engine) (depth : Nat) (stack : Stack) (delims : Delimiters)
    (text : Bytes)
    : engine.process (depth + 1) stack delims text
        =
      engine.walk (engine.process depth) stack delims text 0 := by
  rfl

end Engine

end Mustache
