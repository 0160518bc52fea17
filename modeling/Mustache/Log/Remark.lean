import Mustache.Log.Setup
import Mustache.Run

/-!
This module contains what is said in the log: remarks, and those that a render makes.
-/

namespace Mustache

namespace Log

structure Remark where
  level : Level
  logger : Text
  message : Text
  extra : List (Text × Value Text)

namespace Remark

def record (remark : Remark) (time : Time) : Record :=
  ⟨remark.level, remark.logger, remark.message, time, none, remark.extra⟩

def debug (logger message : Text) : Remark :=
  ⟨.debug, logger, message, []⟩

end Remark

def Setup.writeAll (setup : Setup) (time : Time) (remarks : List Remark) : Text :=
  remarks.flatMap fun remark => setup.write (remark.record time)

def rendererName : String := "stache.templates.renderer"

def partialsName : String := "stache.templates.partials"

end Log

open Log

def Event.remark? : Event → Option Remark
  | .step s =>
    match s.action with
    | .delimiters new =>
      let marks := Quoted.bytes new.opening ++ " " ++ Quoted.bytes new.closing
      some (.debug rendererName ("Delimiters changed to " ++ marks))
    | .badDelimiters body =>
      some (.debug rendererName ("Ignoring malformed delimiter tag: " ++ Quoted.bytes body))
    | _ => none
  | .loaded _ answer => answer.remark.map (.debug partialsName)
  | .called effectful _ name _ =>
    let kind := if effectful then "effectful lambda" else "lambda"
    some (.debug rendererName ("Calling " ++ kind ++ " for section " ++ Utf8.decode name))
  | _ => none

def Run.remarks (run : Run) (template : Bytes) : List Remark :=
  let summary := "Rendered " ++ toString template.length ++ " template bytes into " ++
    toString run.output.length ++ " output bytes"
  run.events.filterMap Event.remark? ++
    if run.failure.isSome then [] else [.debug rendererName summary]

end Mustache
