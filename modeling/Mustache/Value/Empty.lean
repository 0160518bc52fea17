import Mustache.Value.Basic

/-!
This module contains the decision whether a value counts as empty for a section.
-/

namespace Mustache

def Binary64.isNearZero (x : Binary64) : Bool :=
  x.absLe 4835703278458517 (Nat.pow 2 82)

namespace Value

/--
Numbers are empty if they are near zero, text and sequences if they have no items. Flags are never
empty, and neither is any other value: a flag is asked for its truth instead.

Integers and ratios are rounded to a double first, which fails for those beyond the largest one. A
decimal is rounded in decimal before, which fails beyond the range of decimals.
-/
def isEmpty : Value → Except MagnitudeError Bool
  | int n =>
    match Binary64.ofQuotient? false n.natAbs 1 with
    | some x => .ok x.isNearZero
    | none => .error .integer
  | ratio q =>
    match Binary64.ofQuotient? false q.num.natAbs q.den with
    | some x => .ok x.isNearZero
    | none => .error .ratio
  | float x => .ok x.isNearZero
  | decimal d =>
    if d.isSignaling then .error .signaling
    else if d.isBeyondRange then .error .decimal
    else .ok d.magnitude.isNearZero
  | text s => .ok s.isEmpty
  | bytes _ b => .ok b.isEmpty
  | list items => .ok items.isEmpty
  | tuple items => .ok items.isEmpty
  | record .row fields => .ok fields.isEmpty
  | _ => .ok false

end Value

end Mustache
