import Mustache.Partials
import Mustache.Step

/-!
This module contains the record of a render: all that it does, in order. The output, the calls and the
errors are read off it.
-/

namespace Mustache

inductive Event where
  | literal (text : Bytes)
  | step (step : Step)
  | escaped (value output : Bytes)
  | plain (value : Bytes)
  | loaded (name : Bytes) (answer : Loaded)
  | called (effectful : Bool) (label : Option String) (name body : Bytes)
  | result (output : Bytes)
  /-- The literal text after the last tag, with the delimiters then in effect. -/
  | tail (delims : Delimiters) (text : Bytes)

namespace Event

def output : Event → Bytes
  | literal text => text
  | escaped _ output => output
  | plain value => value
  | result output => output
  | tail _ text => text
  | _ => []

def call? : Event → Option (String × Bytes)
  | called _ (some label) _ body => some (label, body)
  | _ => none

end Event

structure Run where
  events : List Event
  failure : Option Failure

namespace Run

def done : Run := ⟨[], none⟩

def emit (event : Event) : Run := ⟨[event], none⟩

def fail (failure : Failure) : Run := ⟨[], some failure⟩

/-- What comes after a failure does not happen. -/
def andThen (first : Run) (second : Unit → Run) : Run :=
  match first.failure with
  | some _ => first
  | none => ⟨first.events ++ (second ()).events, (second ()).failure⟩

def each (items : List α) (run : α → Run) : Run :=
  match items with
  | [] => done
  | item :: rest => (run item).andThen fun _ => each rest run

def segments (run : Run) : List Bytes :=
  run.events.map Event.output

def output (run : Run) : Bytes :=
  run.events.flatMap Event.output

def calls (run : Run) : List (String × Bytes) :=
  run.events.filterMap Event.call?

def answer (run : Run) : Except Failure Bytes :=
  match run.failure with
  | some failure => .error failure
  | none => .ok run.output

end Run

end Mustache
