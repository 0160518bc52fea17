import Mustache.Log.Setup

/-!
This module contains loggers. A record is made by one of them and written by the handlers of this one and of those
above it. The dots of a name tell which loggers are above it, and what a logger does not decide itself, those above
it decide.
-/

namespace Mustache.Log

structure Stream where
  name : String
  terminal : Bool
  deriving DecidableEq

inductive Effect where
  | text (stream : Stream) (text : Text)
  | report (fault : Record.Fault)
  deriving DecidableEq

namespace Effect

def written : Effect → Text
  | .text _ added => added
  | .report _ => []

end Effect

structure Handler where
  stream : Stream
  mode : Mode
  colours : Bool
  deriving DecidableEq

namespace Handler

def handle (handler : Handler) (record : Record) : Effect :=
  match record.text? handler.mode handler.colours with
  | .ok text => .text handler.stream (text ++ Text.ofString "\n")
  | .error fault => .report fault

end Handler

structure Logger where
  level : Level
  handlers : List Handler
  propagates : Bool
  /-- Levels that were asked for, and whether they are enabled. This is forgotten once a level is set. -/
  answers : List (Level × Bool)
  deriving DecidableEq

namespace Logger

def plain : Logger := ⟨0, [], true, []⟩

def forget (logger : Logger) : Logger :=
  { logger with answers := [] }

def cut (logger : Logger) : Logger :=
  { logger with handlers := [], propagates := false }

def addHandler (handler : Handler) (logger : Logger) : Logger :=
  { logger with handlers := logger.handlers ++ [handler] }

def thresholdOf (loggers : List Logger) : Level :=
  ((loggers.map (·.level)).find? (· ≠ 0)).getD 0

def handlersOf : List Logger → List Handler
  | [] => []
  | logger :: above => logger.handlers ++ if logger.propagates then handlersOf above else []

end Logger

structure Loggers where
  find? : Text → Option Logger

namespace Loggers

def rootName : Text := "root"

def initial : Loggers :=
  ⟨fun name => if name = rootName then some { Logger.plain with level := .warning } else none⟩

def get (loggers : Loggers) (name : Text) : Logger :=
  (loggers.find? name).getD .plain

def change (loggers : Loggers) (name : Text) (f : Logger → Logger) : Loggers :=
  ⟨fun other => if other = name then some (f (loggers.get name)) else loggers.find? other⟩

def isLogger (loggers : Loggers) (name : Text) : Bool :=
  name ≠ rootName && (loggers.find? name).isSome

/--
The names above a name, the nearest first; all names are reversed. They end in front of dots of the name. If there is
no logger of such a name, the character that it ends with is passed over, and if this is a dot, it is no dot to end in
front of.
-/
def lineage (isLogger : Text → Bool) : Text → List Text
  | [] => []
  | .char '.' :: c :: rest =>
    if isLogger (c :: rest) then
      (c :: rest) :: lineage isLogger (c :: rest)
    else
      lineage isLogger rest
  | _ :: rest => lineage isLogger rest

def above (loggers : Loggers) (name : Text) : List Text :=
  (lineage (fun reversed => loggers.isLogger reversed.reverse) name.reverse).map List.reverse

def chain (loggers : Loggers) (name : Text) : List Logger :=
  if name = rootName then
    [loggers.get rootName]
  else
    (name :: loggers.above name ++ [rootName]).map loggers.get

/-- Sets the level of a logger. It may be decisive for other loggers, too, so all forget their answers. -/
def setLevel (loggers : Loggers) (name : Text) (level : Level) : Loggers :=
  let changed := loggers.change name fun logger => { logger with level }
  ⟨fun other => (changed.find? other).map Logger.forget⟩

def ask (loggers : Loggers) (name : Text) (level : Level) : Bool × Loggers :=
  match (loggers.get name).answers.lookup level with
  | some answer => (answer, loggers)
  | none =>
    let answer := 0 < level && Logger.thresholdOf (loggers.chain name) ≤ level
    (answer, loggers.change name fun logger =>
      { logger with answers := (level, answer) :: logger.answers })

def handle (loggers : Loggers) (console : Stream) (record : Record) : List Effect :=
  match Logger.handlersOf (loggers.chain record.logger) with
  | [] => if .warning ≤ record.level then [.text console (bare record)] else []
  | handlers => handlers.map (·.handle record)

def setUp (loggers : Loggers) (stream : Stream) (mode : Mode) (level : Level) : Loggers :=
  ((loggers.setLevel topName level).change topName Logger.cut).change topName
    (.addHandler ⟨stream, mode, stream.terminal⟩)

def named (loggers : Loggers) (name : Text) : Text × Loggers :=
  let name := if name = [] then rootName else name
  (name, loggers.change name id)

def log (loggers : Loggers) (console : Stream) (time : Time) (logger : Text) (level : Level) (message : Text) :
    Loggers × List Effect :=
  let (name, loggers) := loggers.named logger
  match loggers.ask name level with
  | (false, loggers) => (loggers, [])
  | (true, loggers) => (loggers, loggers.handle console ⟨level, name, message, time, none, []⟩)

def structured (loggers : Loggers) (console : Stream) (time : Time) (logger : Text) (level : Level)
    (message : Text) (fields : List (Text × Value Text)) : Loggers × List Effect :=
  let (name, loggers) := loggers.named logger
  match loggers.ask name level with
  | (false, loggers) => (loggers, [])
  | (true, loggers) =>
    let record : Record := ⟨level, name, message, time, none, []⟩
    let record := if fields.isEmpty then record else { record with extra := fields }
    (loggers, loggers.handle console record)

end Loggers

def takenNames : List Text := ["self", "level", "msg"]

/--
The fields of a record that is made by hand. They are given beside the other arguments, whose names they cannot have.
-/
structure Fields where
  members : List (Text × Value Text)
  free : ∀ member ∈ members, member.1 ∉ takenNames

namespace Fields

def none : Fields := ⟨[], by simp⟩

def ofList (members : List (Text × Value Text)) : Except Text Fields :=
  match h : members.find? fun member => member.1 ∈ takenNames with
  | some member => .error member.1
  | Option.none => .ok ⟨members, by simpa using h⟩

def takenMessage (name : Text) : Text :=
  Text.ofString "StacheLogger.structured() got multiple values for argument '" ++ name ++ Text.ofString "'"

end Fields

inductive Call where
  | setup (mode : Mode) (level : Level) (stream : Option Stream)
  | flags (flags : Flags)
  | log (time : Time) (logger : Text) (level : Level) (message : Text)
  | structured (time : Time) (logger : Text) (level : Level) (message : Text) (fields : Fields)

namespace Loggers

def perform (loggers : Loggers) (console : Stream) : Call → Loggers × List Effect
  | .setup mode level stream => (loggers.setUp (stream.getD console) mode level, [])
  | .flags flags => (loggers.setUp console flags.mode flags.level, [])
  | .log time logger level message => loggers.log console time logger level message
  | .structured time logger level message fields =>
    loggers.structured console time logger level message fields.members

def performAll (loggers : Loggers) (console : Stream) (calls : List Call) : Loggers :=
  calls.foldl (fun loggers call => (loggers.perform console call).1) loggers

end Loggers

end Mustache.Log
