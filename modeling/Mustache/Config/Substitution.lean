import Mustache.Cut
import Mustache.Text.Surrogate
import Mustache.Value.Basic

/-!
This module contains the substitution of environment variables in configuration data. A reference is a
dollar sign and a name in braces. The text is read once: what is put in is not looked at again.
-/

namespace Mustache

open Alphabet Textual

section

variable {κ ε : Type} [DecidableEq κ] [Alphabet κ]

/-- The name in the reference that a text begins with, and what follows. It goes up to the next brace. -/
def reference? : List κ → Option (List κ × List κ)
  | dollar :: brace :: inner =>
    if dollar = ofChar '$' ∧ brace = ofChar '\x7b' then
      (cutAt? (ofChar '\x7d') inner).filter fun cut => cut.1 ≠ []
    else
      none
  | _ => none

theorem length_of_reference? {text name after : List κ} (h : reference? text = some (name, after)) :
    after.length < text.length := by
  unfold reference? at h
  split at h
  . split at h
    . have := length_of_cutAt? (Option.eq_some_of_filter_eq_some h)
      simp only [List.length_cons]
      omega
    . contradiction
  . contradiction

def expand (find : List κ → Except ε (List κ)) (text : List κ) : Except ε (List κ) :=
  match text with
  | [] => .ok []
  | c :: rest =>
    match _h : reference? (c :: rest) with
    | some (name, after) => do
      let value ← find name
      let expanded ← expand find after
      return value ++ expanded
    | none => (expand find rest).map (c :: ·)
termination_by text.length
decreasing_by
  . exact length_of_reference? _h
  . simp

end

namespace Value

variable {τ κ ε : Type} [DecidableEq κ] [Alphabet κ] [Textual τ κ]

mutual

def substitute (find : List κ → Except ε (List κ)) : Value τ → Except ε (Value τ)
  | .text s => (expand find (chars s)).map fun expanded => .text (ofChars expanded)
  | .list items => (substituteItems find items).map .list
  | .record .mapping fields => (substituteFields find fields).map (.record .mapping)
  | value => .ok value

def substituteItems (find : List κ → Except ε (List κ)) :
    List (Value τ) → Except ε (List (Value τ))
  | [] => .ok []
  | value :: rest => do
    let value ← substitute find value
    let rest ← substituteItems find rest
    return value :: rest

def substituteFields (find : List κ → Except ε (List κ)) :
    List (Key τ × Value τ) → Except ε (List (Key τ × Value τ))
  | [] => .ok []
  | (key, value) :: rest => do
    let value ← substitute find value
    let rest ← substituteFields find rest
    return (key, value) :: rest

end

end Value

structure UnsetVariable where
  name : Text
  deriving DecidableEq

def UnsetVariable.message (error : UnsetVariable) : Text :=
  Text.ofString "Environment variable not set: " ++ error.name

inductive ReferenceError where
  | unset (error : UnsetVariable)
  /-- The name has no bytes, so it cannot even be looked up. -/
  | unencodable (fault : Text.Fault)
  deriving DecidableEq

abbrev Variables := List (Bytes × Bytes)

def Variables.find (vars : Variables) (name : Text) : Except ReferenceError Text :=
  match name.encode with
  | .error fault => .error (.unencodable fault)
  | .ok bytes =>
    match vars.lookup bytes with
    | none => .error (.unset ⟨name⟩)
    | some value => .ok (.ofBytes value)

/-- The variables of an environment in which all names and values are strings. -/
abbrev Environment := List (String × String)

namespace Environment

def find (env : Environment) (name : List Char) : Except UnsetVariable (List Char) :=
  match env.lookup (String.ofList name) with
  | none => .error ⟨name.map .char⟩
  | some value => .ok value.toList

def substituteFields (env : Environment) (fields : List (Key × Value)) :
    Except UnsetVariable (List (Key × Value)) :=
  Value.substituteFields env.find fields

end Environment

end Mustache
