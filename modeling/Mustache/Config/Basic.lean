import Mustache.Config.Substitution
import Mustache.Document
import Mustache.Settings

/-!
This module contains the configuration of the program: what it says about escaping, partials and
output, and the settings that result.
-/

namespace Mustache

inductive ConfigError where
  | unset (error : UnsetVariable)
  | unencodable (fault : Text.Fault)
  | notMapping (sectionName : String)
  | invalidEscape (shown : String)
  | escapeNotName (fault : LookupFault)
  | longEscape
  | directoryNotText (typeName : String)
  | outputNotText (typeName : String)
  | missingFile (path : String)
  | fileNotMapping (path : String)
  | document (error : DocumentError)
  deriving DecidableEq

namespace ConfigError

def notPathMessage (typeName : String) : String :=
  if typeName = "bytes" then
    "argument should be a str object or an os.PathLike object returning str, " ++
      "not <class 'bytes'>"
  else
    "expected str, bytes or os.PathLike object, not " ++ typeName

def ofReference : ReferenceError → ConfigError
  | .unset error => unset error
  | .unencodable fault => unencodable fault

def message : ConfigError → Text
  | unset error => error.message
  | unencodable fault => fault.message
  | notMapping sectionName => "Config section '" ++ sectionName ++ "' must be a mapping"
  | invalidEscape shown => "Invalid escape function: " ++ shown ++ ". " ++ Escape.choices
  | escapeNotName fault => fault.message
  | longEscape => Digits.message none
  | directoryNotText typeName => notPathMessage typeName
  | outputNotText typeName => notPathMessage typeName
  | missingFile path => "Config file not found: " ++ path
  | fileNotMapping path => "Config file must contain a mapping: " ++ path
  | document error => error.message

end ConfigError

/--
The configuration. Only the escaping is checked when it is read; the other values are taken as they
are, and `path` is that of the file that they come from.
-/
structure Config where
  escape : Escape
  directory : Value
  extension : Value
  output : Value
  path : Option Path

namespace Config

def standard : Config := ⟨.html, .null, .null, .null, none⟩

abbrev Fields := List (Key × Value)

def Fields.find? (fields : Fields) (name : String) : Option Value :=
  fields.lookup (.text name)

def Fields.get (fields : Fields) (name : String) : Value :=
  (fields.find? name).getD .null

/-- The fields of a section, if there is one; a false value is an empty section. -/
def section? (fields : Fields) (name : String) : Except ConfigError (Option Fields) :=
  match fields.find? name with
  | none => .ok none
  | some value =>
    if value.isTrue then
      match value with
      | .record .mapping fields => .ok (some fields)
      | _ => .error (.notMapping name)
    else
      .ok (some [])

def escapeOf (value : Value) : Except ConfigError Escape :=
  match value with
  | .text name =>
    match Escape.ofName? name with
    | some escape => .ok escape
    | none => .error (.invalidEscape name)
  | value =>
    match value.lookupFault? with
    | some fault => .error (.escapeNotName fault)
    | none => if value.hasText then .error (.invalidEscape value.display) else .error .longEscape

def withRender (config : Config) (fields : Fields) : Except ConfigError Config := do
  let escape ←
    match fields.find? "escape" with
    | none => pure config.escape
    | some value => escapeOf value
  return { config with
    escape
    directory := fields.get "partials_dir"
    extension := fields.get "partials_ext" }

def read (fields : Fields) : Except ConfigError Config := do
  let config ←
    match ← section? fields "render" with
    | none => pure standard
    | some render => standard.withRender render
  match ← section? fields "output" with
  | none => return config
  | some output => return { config with output := output.get "path" }

def ofFields (env : Environment) (fields : Fields) : Except ConfigError Config := do
  let fields ← (env.substituteFields fields).mapError .unset
  read fields

/-- The directory that a hidden configuration directory belongs to, or that of the file. -/
def base (path : Path) : Path :=
  if path.parent.name = ".stache" then path.parent.parent else path.parent

def partialsDirectory (config : Config) : Except ConfigError (Option Path) :=
  if config.directory.isTrue then
    match config.directory, config.path with
    | .text s, some path => .ok (some ((base path).join (Path.ofText s)))
    | .text s, none => .ok (some (Path.ofText s))
    | other, _ => .error (.directoryNotText other.typeName)
  else
    .ok none

def settings (config : Config) : Except ConfigError Settings :=
  config.partialsDirectory.map fun directory => ⟨config.escape, directory, config.extension⟩

def outputPath (config : Config) : Except ConfigError (Option Path) :=
  if config.output.isTrue then
    match config.output with
    | .text s => .ok (some (Path.ofText s))
    | other => .error (.outputNotText other.typeName)
  else
    .ok none

end Config

end Mustache
