import Mustache.Command.Options
import Mustache.Command.Request
import Mustache.Yaml.Loader

/-!
This module contains the reader of command lines that the program brings along. All that is said of it is that it
finds an output where it is asked for one.
-/

namespace Mustache.Command

def usage : String :=
  "Usage: stache [-c FILE] [-v] [-q] [--ci] [--version] COMMAND\n" ++
    "  render TEMPLATE [-d FILE] [-o FILE] [-p DIRECTORY] [-e EXTENSION] [--no-escape]\n" ++
    "  validate TEMPLATE [--json]\n" ++
    "  init [--force]\n"

inductive Notice where
  | version
  | help
  deriving DecidableEq

def Notice.invocation : Notice → Invocation
  | version => .version
  | help => .help usage

structure GlobalOptions where
  flags : Log.Flags
  config : Option String
  notice : Option Notice

def first (notice? : Option Notice) (notice : Notice) : Option Notice :=
  some (notice?.getD notice)

namespace GlobalOptions

def standard : GlobalOptions := ⟨⟨false, false, false⟩, none, none⟩

def switches : List (Switch GlobalOptions) := [
  ⟨some 'c', "config", .value fun path options => { options with config := some path }⟩,
  ⟨some 'v', "verbose", .flag fun options =>
    { options with flags := { options.flags with verbose := true } }⟩,
  ⟨some 'q', "quiet", .flag fun options =>
    { options with flags := { options.flags with quiet := true } }⟩,
  ⟨none, "ci", .flag fun options => { options with flags := { options.flags with ci := true } }⟩,
  ⟨none, "version", .flag fun options =>
    { options with notice := first options.notice .version }⟩,
  ⟨none, "help", .flag fun options => { options with notice := first options.notice .help }⟩]

end GlobalOptions

def Name.ofText? (s : String) : Option Name :=
  if s = "render" then some .render
  else if s = "validate" then some .validate
  else if s = "init" then some .init
  else none

def understood (read? : Option α) : Except Refusal α :=
  match read? with
  | some read => .ok read
  | none => .error .usage

/-- The path of a file that must be there. Directories are none. -/
def existing (w : Workspace) (s : String) : Except Refusal Path :=
  match w.stat s with
  | .ok (.file _) => .ok (Path.ofText s)
  | .error .nullCharacter => .error (.file ⟨.nullCharacter, s⟩)
  | _ => .error .usage

def possible (w : Workspace) (s : String) : Except Refusal Path :=
  match w.stat s with
  | .error .nullCharacter => .error (.file ⟨.nullCharacter, s⟩)
  | _ => .ok (Path.ofText s)

def ifGiven (read : String → Except Refusal Path) (s? : Option String) :
    Except Refusal (Option Path) :=
  match s? with
  | none => .ok none
  | some s => (read s).map some

inductive PathOption where
  | data
  | output
  | directory
  deriving DecidableEq

def PathOption.admits (option : PathOption) (w : Workspace) (s : String) : Except Refusal Path :=
  match option with
  | .data => existing w s
  | .output => possible w s
  | .directory => possible w s

structure RenderTexts where
  paths : List (PathOption × String)
  extension : Option String
  noEscape : Bool
  help : Bool

namespace RenderTexts

def standard : RenderTexts := ⟨[], none, false, false⟩

/-- Sets the path of an option. One that is given again keeps its place. -/
def setPath (option : PathOption) (path : String) (texts : RenderTexts) : RenderTexts :=
  let paths :=
    if texts.paths.any fun other => other.1 = option then
      texts.paths.map fun other => if other.1 = option then (option, path) else other
    else
      texts.paths ++ [(option, path)]
  { texts with paths }

def path? (texts : RenderTexts) (option : PathOption) : Option String :=
  (texts.paths.find? fun other => other.1 = option).map (·.2)

def switches : List (Switch RenderTexts) := [
  ⟨some 'd', "data", .value (setPath .data)⟩,
  ⟨some 'o', "output", .value (setPath .output)⟩,
  ⟨some 'p', "partials-dir", .value (setPath .directory)⟩,
  ⟨some 'e', "partials-ext", .value fun text texts => { texts with extension := some text }⟩,
  ⟨none, "no-escape", .flag fun texts => { texts with noEscape := true }⟩,
  ⟨none, "help", .flag fun texts => { texts with help := true }⟩]

end RenderTexts

structure FlagTexts where
  flag : Bool
  help : Bool

namespace FlagTexts

def switches (name : String) : List (Switch FlagTexts) := [
  ⟨none, name, .flag fun texts => { texts with flag := true }⟩,
  ⟨none, "help", .flag fun texts => { texts with help := true }⟩]

end FlagTexts

namespace Request

def ofRender (w : Workspace) (args : List String) : Except Refusal Request := do
  let (texts, others) ← understood (Switch.readAll? RenderTexts.switches true .standard args)
  if texts.help then
    return .help usage
  texts.paths.forM fun (option, path) => discard (option.admits w path)
  let template :: more := others | throw .usage
  let template ← existing w template
  if more ≠ [] then
    throw .usage
  let path? (option : PathOption) : Option Path := (texts.path? option).map Path.ofText
  return .render {
    template
    data := path? .data
    output := path? .output
    directory := path? .directory
    extension := texts.extension
    noEscape := texts.noEscape }

def ofValidate (w : Workspace) (args : List String) : Except Refusal Request := do
  let switches := FlagTexts.switches "json"
  let (texts, others) ← understood (Switch.readAll? switches true ⟨false, false⟩ args)
  if texts.help then
    return .help usage
  let template :: more := others | throw .usage
  let template ← existing w template
  if more ≠ [] then
    throw .usage
  return .validate ⟨template, texts.flag⟩

def ofInit (args : List String) : Except Refusal Request := do
  let switches := FlagTexts.switches "force"
  let (texts, others) ← understood (Switch.readAll? switches true ⟨false, false⟩ args)
  if texts.help then
    return .help usage
  if others ≠ [] then
    throw .usage
  return .init ⟨texts.flag⟩

def ofArguments (w : Workspace) (name : Name) (args : List String) : Except Refusal Request :=
  match name with
  | .render => ofRender w args
  | .validate => ofValidate w args
  | .init => ofInit args

end Request

inductive Preamble where
  | notice (notice : Notice)
  | read (flags : Log.Flags) (config : Option Path) (others : List String)

def Preamble.ofArguments (w : Workspace) (args : List String) : Except Refusal Preamble := do
  let (options, others) ←
    understood (Switch.readAll? GlobalOptions.switches false .standard args)
  match options.notice with
  | some shown => return .notice shown
  | none => return .read options.flags (← ifGiven (existing w) options.config) others

/--
Reads a command line up to the name of the command. If there is none of that name, what is left may be
options after all: then a notice among them is shown, and nothing else is done.
-/
def Invocation.ofArguments (w : Workspace) (args : List String) : Except Refusal Invocation := do
  match ← Preamble.ofArguments w args with
  | .notice shown => return shown.invocation
  | .read _ _ [] => throw .usage
  | .read flags config (name :: args) =>
    match Name.ofText? name with
    | some name => return .call ⟨flags, config, name, args⟩
    | none =>
      match ← Preamble.ofArguments w (name :: args) with
      | .notice shown => return shown.invocation
      | .read .. => throw .usage

def LineReader.own : LineReader := ⟨Invocation.ofArguments, Request.ofArguments⟩

def Libraries.own : Libraries := ⟨Yaml.loader, .own⟩

end Mustache.Command
