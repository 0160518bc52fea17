import Mustache.Command.Outcome
import Mustache.Config.File

/-!
This module contains the command that renders a template.
-/

namespace Mustache.Command

inductive DataError where
  | document (error : DocumentError)
  | notMapping (path : String)

def DataError.message : DataError → String
  | document error => error.message
  | notMapping path => "Data file must contain a mapping at the top level: " ++ path

namespace RenderOptions

def settings (options : RenderOptions) (config : Config) : Except ConfigError Settings :=
  config.settings.map fun settings => {
    escape := if options.noEscape then .none else settings.escape
    directory := options.directory <|> settings.directory
    extension := (options.extension.map Value.text).getD settings.extension }

def loadData (options : RenderOptions) (loader : Loader) (w : Workspace) :
    Except DataError (Config.Fields) :=
  match options.data with
  | none => .ok []
  | some path =>
    match loader.readText w path with
    | .error error => .error (.document error)
    | .ok .null => .ok []
    | .ok (.record .mapping fields) => .ok fields
    | .ok _ => .error (.notMapping path.text)

def withoutData (w : Workspace) (error : DataError) : Outcome :=
  match error with
  | .document error =>
    if error.isReported then
      .failed w ("Failed to load data: " ++ error.message)
    else
      .ended w (.fault (.document error))
  | .notMapping _ => .failed w ("Failed to load data: " ++ error.message)

def remarks (options : RenderOptions) (w : Workspace) (run : Run) : List Log.Remark :=
  match w.read options.template with
  | .error _ => []
  | .ok template => run.remarks template

def outputPath (options : RenderOptions) (config : Config) : Except ConfigError (Option Path) :=
  match options.output with
  | some path => .ok (some path)
  | none => config.outputPath

def written (options : RenderOptions) (path : Path) (output : Bytes) : Log.Remark :=
  { info ("Wrote " ++ toString output.length ++ " bytes to " ++ path.text) with
    extra := [
      ("template", .text options.template.text),
      ("output", .text path.text),
      ("size", .int output.length)] }

def writeOutput (options : RenderOptions) (w : Workspace) (path : Path) (output : Bytes) :
    Outcome :=
  match w.ensureDirectories path.parent with
  | (w, some error) => .ended w (.fault (.file error))
  | (w, none) =>
    match w.write path output with
    | .error error => .ended w (.fault (.file error))
    | .ok w => (Outcome.ended w .success).after [options.written path output]

def deliver (options : RenderOptions) (w : Workspace) (config : Config) (output : Bytes) :
    Outcome :=
  match options.outputPath config with
  | .error error => .ended w (.fault (.config error))
  | .ok none => .printed w output .success
  | .ok (some path) => options.writeOutput w path output

/-- Goes on after a render. Errors of rendering proper are reported, others are faults. -/
def finish (options : RenderOptions) (w : Workspace) (config : Config) (run : Run) : Outcome :=
  match run.answer with
  | .ok output => options.deliver w config output
  | .error (.render error) => .failed w error.message
  | .error failure => .ended w (.fault (.render failure))

def perform (options : RenderOptions) (loader : Loader) (w : Workspace) (config : Config) :
    Outcome :=
  match options.settings config with
  | .error error => .ended w (.fault (.config error))
  | .ok settings =>
    match options.loadData loader w with
    | .error error => withoutData w error
    | .ok data =>
      let run := settings.renderFile w options.template (Context.ofData data)
      (options.finish w config run).after (options.remarks w run)

end RenderOptions

end Mustache.Command
