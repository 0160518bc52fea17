import Mustache.Command.Request
import Mustache.Config.Basic
import Mustache.Log.Remark

/-!
This module contains what a run of the program comes to: what it prints, what it says in the log, how
it ends, and the files it leaves.
-/

namespace Mustache.Command

/-- The errors that no command reports by itself. -/
inductive Fault where
  | config (error : ConfigError)
  | document (error : DocumentError)
  | render (failure : Failure)
  | file (error : FileError)
  deriving DecidableEq

def Fault.message : Fault → Text
  | config error => error.message
  | document error => error.message
  | render failure => failure.message
  | file error => error.message

inductive Ending where
  | success
  | failure
  | usage
  | fault (fault : Fault)
  deriving DecidableEq

def Ending.code : Ending → Nat
  | success => 0
  | failure => 1
  | usage => 2
  | fault _ => 1

def Refusal.ending : Refusal → Ending
  | usage => .usage
  | file error => .fault (.file error)

structure Outcome where
  workspace : Workspace
  remarks : List Log.Remark
  output : Bytes
  ending : Ending

namespace Outcome

def ended (w : Workspace) (ending : Ending) : Outcome :=
  ⟨w, [], [], ending⟩

def printed (w : Workspace) (output : Bytes) (ending : Ending) : Outcome :=
  ⟨w, [], output, ending⟩

def after (remarks : List Log.Remark) (outcome : Outcome) : Outcome :=
  { outcome with remarks := remarks ++ outcome.remarks }

end Outcome

def loggerName : Text := "stache.cli"

def debug (message : Text) : Log.Remark := ⟨.debug, loggerName, message, []⟩

def info (message : Text) : Log.Remark := ⟨.info, loggerName, message, []⟩

def error (message : Text) : Log.Remark := ⟨.error, loggerName, message, []⟩

def Outcome.failed (w : Workspace) (message : Text) : Outcome :=
  (ended w .failure).after [error message]

end Mustache.Command
