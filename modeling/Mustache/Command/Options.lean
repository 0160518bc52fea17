/-!
This module contains the reading of options on a command line. Options may be given by a short or by a
long name; short ones that stand together share a dash, and a value may be attached to its option.
-/

namespace Mustache.Command

inductive Effect (α : Type) where
  | flag (set : α → α)
  | value (set : String → α → α)

structure Switch (α : Type) where
  short : Option Char
  long : String
  effect : Effect α

inductive Reading (α : Type) where
  | complete (settings : α)
  /-- The next argument is a value, whatever it looks like. -/
  | pending (set : String → α → α) (settings : α)
  | refused

namespace Switch

def readLetters (switches : List (Switch α)) (settings : α) : List Char → Reading α
  | [] => .complete settings
  | letter :: rest =>
    match switches.find? fun switch => switch.short == some letter with
    | none => .refused
    | some switch =>
      match switch.effect with
      | .flag set => readLetters switches (set settings) rest
      | .value set =>
        if rest = [] then .pending set settings else .complete (set (String.ofList rest) settings)

def readName (switches : List (Switch α)) (settings : α) (text : List Char) : Reading α :=
  let name := String.ofList (text.takeWhile (· ≠ '='))
  match switches.find? fun switch => switch.long == name with
  | none => .refused
  | some switch =>
    match switch.effect, text.dropWhile (· ≠ '=') with
    | .flag set, [] => .complete (set settings)
    | .flag _, _ :: _ => .refused
    | .value set, [] => .pending set settings
    | .value set, _ :: value => .complete (set (String.ofList value) settings)

def read? (switches : List (Switch α)) (settings : α) (arg : String) : Option (Reading α) :=
  match arg.toList with
  | '-' :: '-' :: name => some (readName switches settings name)
  | '-' :: letter :: rest => some (readLetters switches settings (letter :: rest))
  | _ => none

/--
Reads the arguments of a command: its settings, and the arguments that are not options. Two dashes end
the options, and unless they may be interspersed so does the first other argument.
-/
def readAll? (switches : List (Switch α)) (interspersed : Bool) (settings : α) :
    List String → Option (α × List String)
  | [] => some (settings, [])
  | arg :: rest =>
    if arg = "--" then
      some (settings, rest)
    else
      match read? switches settings arg with
      | some (.complete settings) => readAll? switches interspersed settings rest
      | some (.pending set settings) =>
        match rest with
        | [] => none
        | value :: rest => readAll? switches interspersed (set value settings) rest
      | some .refused => none
      | none =>
        if interspersed then
          (readAll? switches interspersed settings rest).map fun (settings, others) =>
            (settings, arg :: others)
        else
          some (settings, arg :: rest)

end Switch

end Mustache.Command
