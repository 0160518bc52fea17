import Mustache.Lookup

/-!
This module contains the decision what becomes of the body of a section.
-/

namespace Mustache

inductive Plan where
  | scopes (inner : List Stack)
  | call (effectful : Bool) (callout : Callout)

namespace Plan

def once (stack : Stack) (condition : Bool) : Plan :=
  .scopes (if condition then [stack] else [])

def positive (stack : Stack) (binding? : Option Binding) : Except MagnitudeError Plan :=
  match binding? with
  | some (.list items) => .ok (.scopes (items.map (· :: stack)))
  | some (.variable value) => value.isEmpty.map fun empty => once stack !empty
  | some (.flag b) => .ok (once stack b)
  | some (.callout effectful callout) => .ok (.call effectful callout)
  | some .absent => .ok (.scopes [])
  | none => .ok (.scopes [])

def inverted (stack : Stack) (binding? : Option Binding) : Except MagnitudeError Plan :=
  match binding? with
  | some (.list items) => .ok (once stack items.isEmpty)
  | some (.variable value) => value.isEmpty.map (once stack)
  | some (.flag b) => .ok (once stack !b)
  | some (.callout ..) => .ok (.scopes [])
  | some .absent => .ok (.scopes [])
  | none => .ok (once stack true)

def ofSection (stack : Stack) (isInverted : Bool) (name : Bytes) : Except Failure Plan :=
  match stack.probe name with
  | .error failure => .error failure
  | .ok binding? =>
    let plan := if isInverted then inverted stack binding? else positive stack binding?
    plan.mapError .magnitude

end Plan

end Mustache
