import Mustache.Command.Outcome
import Mustache.Config.File

/-!
This module contains the command that sets up the files of a new project.
-/

namespace Mustache.Command.InitOptions

def partialsDirectory : Path := Config.hiddenDirectory.join (.ofText "partials")

def report : String :=
  "\n✅ Stache configuration initialized\n" ++
    "   Config: " ++ Config.hiddenFile.text ++ "\n" ++
    "   Partials: " ++ partialsDirectory.text ++ "/\n"

def writeConfig (options : InitOptions) (w : Workspace) : Outcome :=
  let path := Config.hiddenFile
  match w.find? path with
  | .error error => .ended w (.fault (.file error))
  | .ok found =>
    if found.isSome ∧ ¬options.force then
      .failed w ("Config already exists: " ++ path.text ++ " (use --force to overwrite)")
    else
      match w.write path (Utf8.encode Config.template) with
      | .error error => .ended w (.fault (.file error))
      | .ok w =>
        (Outcome.printed w (Utf8.encode report) .success).after
          [info ("Created config: " ++ path.text)]

def perform (options : InitOptions) (w : Workspace) : Outcome :=
  match w.ensureDirectory Config.hiddenDirectory with
  | .error error => .ended w (.fault (.file error))
  | .ok w =>
    match w.ensureDirectory partialsDirectory with
    | .error error => .ended w (.fault (.file error))
    | .ok w => options.writeConfig w

end Mustache.Command.InitOptions
