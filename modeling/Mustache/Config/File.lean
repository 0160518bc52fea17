import Mustache.Config.Basic
import Mustache.Value.Narrow

/-!
This module contains configuration files: where they are found, and how they are read.
-/

namespace Mustache

namespace Path

def collapse (parts : List String) : List String :=
  parts.foldl (fun kept part => if part = ".." then kept.dropLast else kept ++ [part]) []

end Path

def Workspace.resolve (w : Workspace) (path : Path) : Path :=
  let parts := if path.isAbsolute then path.parts else w.home ++ path.parts
  ⟨.root, Path.collapse parts⟩

namespace Config

def hiddenDirectory : Path := .ofText ".stache"

def hiddenFile : Path := hiddenDirectory.join (.ofText "config.yaml")

def plainFile : Path := .ofText "stache.yaml"

def find? (w : Workspace) (start : Path) : Except FileError (Option Path) := do
  if '\x00' ∈ start.text.toList then
    throw ⟨.nullCharacter, start.text⟩
  let directory := w.resolve start
  let hidden := directory.join hiddenFile
  if (← w.find? hidden).isSome then
    return some hidden
  let plain := directory.join plainFile
  if (← w.find? plain).isSome then
    return some plain
  return none

/-- Reads the configuration data of a document. What is left after the references are replaced is read as strings. -/
def ofDocument (vars : Variables) (fields : List (Key Text × Value Text)) :
    Except ConfigError Config := do
  let fields ← (Value.substituteFields vars.find fields).mapError .ofReference
  read (Value.narrowFields fields)

def fieldsOf (path : Path) (value : Value Text) :
    Except ConfigError (List (Key Text × Value Text)) :=
  match value with
  | .record .mapping fields => .ok fields
  | value => if value.narrow.isTrue then .error (.fileNotMapping path.text) else .ok []

def ofFile (loader : Loader) (w : Workspace) (vars : Variables) (path : Path) :
    Except ConfigError Config := do
  let value ← (loader.readStream w path).mapError .document
  let fields ← fieldsOf path value
  let config ← ofDocument vars fields
  return { config with path := some path }

def locate? (w : Workspace) (path? : Option Path) (discover : Bool) :
    Except ConfigError (Option Path) :=
  match path? with
  | some path =>
    match w.find? path with
    | .error error => .error (.document (.file error))
    | .ok (some _) => .ok (some path)
    | .ok none => .error (.missingFile path.text)
  | none =>
    if discover then
      (find? w (.ofText ".")).mapError fun error => .document (.file error)
    else
      .ok none

def load (loader : Loader) (w : Workspace) (vars : Variables) (path? : Option Path)
    (discover : Bool) : Except ConfigError Config := do
  match ← locate? w path? discover with
  | none => return standard
  | some path => ofFile loader w vars path

def template : String :=
  String.intercalate "\n" [
    "# Stache Configuration",
    "",
    "# Rendering",
    "render:",
    "  escape: \"html\"          # html (escape & \\ \" ' < >) or none",
    "  partials_dir: \".stache/partials\"  # Directory for \x7b\x7b> name\x7d\x7d partials",
    "  partials_ext: \".mustache\" # Appended to partial names",
    "",
    "# Output",
    "output:",
    "  # path: \"out/index.html\"  # Default: stdout",
    "  path: null",
    ""]

end Config

end Mustache
