import Mustache.Command.Init
import Mustache.Command.Render
import Mustache.Command.Validate

/-!
This module contains the run of a command line.
-/

namespace Mustache.Command

def version : String := "stache 0.1.0\n"

def loaded (config : Config) : List Log.Remark :=
  match config.path with
  | none => []
  | some path => [debug ("Loaded config from: " ++ path.text)]

/-- Ends without a configuration. What is no fault of its content is no failure to load it. -/
def withoutConfig (w : Workspace) (error : ConfigError) : Outcome :=
  match error with
  | .missingFile _ => .failed w error.message
  | .document (.file ⟨.notFound, _⟩) => .failed w error.message
  | .document (.file _) => .ended w (.fault (.config error))
  | .document (.load fault) =>
    if fault.isReported then
      .failed w (Text.ofString "Failed to load config: " ++ error.message)
    else
      .ended w (.fault (.config error))
  | .escapeNotName _ => .ended w (.fault (.config error))
  | .directoryNotText _ => .ended w (.fault (.config error))
  | .outputNotText _ => .ended w (.fault (.config error))
  | _ => .failed w (Text.ofString "Failed to load config: " ++ error.message)

def Request.perform (request : Request) (loader : Loader) (w : Workspace) (config : Config) :
    Outcome :=
  match request with
  | .render options => options.perform loader w config
  | .validate options => options.perform w
  | .init options => options.perform w
  | .help text => .printed w (Utf8.encode text) .success

/-- Loads the configuration, and only then has the arguments of the command read. -/
def Call.perform (call : Call) (lib : Libraries) (w : Workspace) (vars : Variables) : Outcome :=
  match Config.load lib.loader w vars call.config true with
  | .error error => withoutConfig w error
  | .ok config =>
    let outcome : Outcome :=
      match lib.reader.request w call.name call.args with
      | .error refusal => .ended w refusal.ending
      | .ok request => request.perform lib.loader w config
    outcome.after (loaded config)

def Invocation.perform (invocation : Invocation) (lib : Libraries) (w : Workspace)
    (vars : Variables) : Outcome :=
  match invocation with
  | .version => .printed w (Utf8.encode Command.version) .success
  | .help text => .printed w (Utf8.encode text) .success
  | .call c => c.perform lib w vars

def Invocation.setup? (invocation : Invocation) (terminal : Bool) : Option Log.Setup :=
  match invocation with
  | .call c => some (c.flags.setup terminal)
  | _ => none

structure Result where
  ending : Ending
  output : Bytes
  log : Text
  workspace : Workspace

def run (lib : Libraries) (w : Workspace) (vars : Variables) (time : Time) (terminal : Bool)
    (args : List String) : Result :=
  match lib.reader.invocation w args with
  | .error refusal => ⟨refusal.ending, [], [], w⟩
  | .ok invocation =>
    let outcome := invocation.perform lib w vars
    let log := ((invocation.setup? terminal).map (·.writeAll time outcome.remarks)).getD []
    ⟨outcome.ending, outcome.output, log, outcome.workspace⟩

def runAll (lib : Libraries) (w : Workspace) (vars : Variables) (time : Time)
    (terminal : Bool) : List (List String) → List Result
  | [] => []
  | args :: rest =>
    let result := run lib w vars time terminal args
    result :: runAll lib result.workspace vars time terminal rest

end Mustache.Command
