import Mustache.Run
import Mustache.Section

/-!
This module contains the renderer. It goes through a template once, without a syntax tree: the bodies
of sections are rendered as texts of their own, and so are partials.
-/

namespace Mustache

structure Engine where
  escape : Bytes → Bytes
  resolver : Resolver

namespace Engine

def printVariable (engine : Engine) (stack : Stack) (escaped : Bool) (name : Bytes) : Run :=
  match stack.read name with
  | .error failure => .fail failure
  | .ok value => .emit (if escaped then .escaped value (engine.escape value) else .plain value)

def calloutFailure (name : Bytes) : CalloutFailure → Failure
  | .render error => .render error
  | .other text => .render (.callout name text)

def call (effectful : Bool) (callout : Callout) (name body : Bytes) : Run :=
  (Run.emit (.called effectful callout.label name body)).andThen fun _ =>
    match callout.run body with
    | .error failure => .fail (calloutFailure name failure)
    | .ok value =>
      match value.render? with
      | .error failure => .fail failure
      | .ok output => .emit (.result output)

/-- A partial tag. The content is rendered by `nested`, in the stack and with the delimiters here. -/
def insert (engine : Engine) (nested : Bytes → Run) (name : Bytes) : Run :=
  match engine.resolver name with
  | .error failure => .fail failure
  | .ok answer =>
    (Run.emit (.loaded name answer)).andThen fun _ =>
      match answer.content with
      | none => .done
      | some content => nested content

/-- Renders a text from `pos` on. The content of partials is rendered by `nested`. -/
def walk (engine : Engine) (nested : Stack → Delimiters → Bytes → Run) (stack : Stack)
    (delims : Delimiters) (text : Bytes) (pos : Nat) : Run :=
  match _hstep : Step.next? text delims pos with
  | none => .emit (.tail delims (text.drop pos))
  | some step =>
    let before := (Run.emit (.literal (Bytes.slice text pos step.tag.start))).andThen fun _ =>
      .emit (.step step)
    let performed : Run :=
      match _haction : step.action with
      | .comment => .done
      | .variable escaped name => engine.printVariable stack escaped name
      | .enter inverted name body =>
        match Plan.ofSection stack inverted name with
        | .error failure => .fail failure
        | .ok (.call effectful callout) => call effectful callout name body
        | .ok (.scopes inners) =>
          Run.each inners fun inner => engine.walk nested inner delims body 0
      | .unclosed .. => .done
      | .insert name => engine.insert (nested stack delims) name
      | .delimiters _ => .done
      | .badDelimiters _ => .done
    (before.andThen fun _ => performed).andThen fun _ =>
      engine.walk nested stack step.next text step.resume
termination_by text.length - pos
decreasing_by
  . have := Step.next?_body _hstep _haction
    omega
  . have := Step.next?_resume _hstep
    omega

def process (engine : Engine) (depth : Nat) (stack : Stack) (delims : Delimiters) (text : Bytes) :
    Run :=
  match depth with
  | 0 => .fail .tooDeep
  | depth + 1 => engine.walk (engine.process depth) stack delims text 0

def maxDepth : Nat := 1000

def render (engine : Engine) (template : Bytes) (context : Context) : Run :=
  engine.process maxDepth [context] .standard template

end Engine

end Mustache
