import Mustache.Command.Line
import Mustache.Command.Reader

/-!
This module contains what a command line needs to know of the world outside: the paths that it looks
at, and the variables that it refers to. What is found there may show that it needs more.
-/

namespace Mustache.Command

structure Needs where
  paths : List Path
  names : List Bytes

namespace Needs

def nothing : Needs := ⟨[], []⟩

def ofPaths (paths : List Path) : Needs := ⟨paths, []⟩

def ofVariable (name : Bytes) : Needs := ⟨[], [name]⟩

def and (first second : Needs) : Needs :=
  ⟨first.paths ++ second.paths, first.names ++ second.names⟩

end Needs

def Name.paths (name : Name) (args : List String) : List String :=
  match name with
  | .render =>
    match Switch.readAll? RenderTexts.switches true .standard args with
    | some (texts, others) => others ++ (texts.path? .data).toList ++ (texts.path? .output).toList
    | none => []
  | .validate =>
    match Switch.readAll? (FlagTexts.switches "json") true ⟨false, false⟩ args with
    | some (_, others) => others
    | none => []
  | .init => []

def namedPaths (args : List String) : List Path :=
  match Switch.readAll? GlobalOptions.switches false .standard args with
  | none => []
  | some (options, others) =>
    let named :=
      match others with
      | [] => []
      | name :: args => ((Name.ofText? name).map (·.paths args)).getD []
    [Config.hiddenFile, Config.plainFile, InitOptions.partialsDirectory] ++
      (options.config.toList ++ named).map Path.ofText

def loadedPath? (settings : Settings) : Event → Option Path
  | .loaded name _ => (settings.partialPath (Utf8.decode name)).toOption
  | _ => none

def RenderOptions.paths (options : RenderOptions) (w : Workspace) (config : Config) : List Path :=
  let partials :=
    match options.settings config, options.loadData Yaml.loader w with
    | .ok settings, .ok data =>
      let run := settings.renderFile w options.template (Context.ofData data)
      run.events.filterMap (loadedPath? settings)
    | _, _ => []
  match options.outputPath config with
  | .ok (some path) => path :: partials
  | _ => partials

def Call.needs (call : Call) (w : Workspace) (vars : Variables) : Needs :=
  match Config.load Yaml.loader w vars call.config true with
  | .error (.unset error) => (error.name.encode.map Needs.ofVariable).toOption.getD .nothing
  | .error _ => .nothing
  | .ok config =>
    match Request.ofArguments w call.name call.args with
    | .ok (.render options) => .ofPaths (options.paths w config)
    | _ => .nothing

def needs (w : Workspace) (vars : Variables) (args : List String) : Needs :=
  let named := Needs.ofPaths (namedPaths args)
  match Invocation.ofArguments w args with
  | .ok (.call c) => named.and (c.needs w vars)
  | _ => named

end Mustache.Command
