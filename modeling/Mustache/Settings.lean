import Mustache.Render
import Mustache.Text.Html
import Mustache.Value.Truth
import Mustache.Workspace

/-!
This module contains the settings of a render: the escaping of variables, and where the files of
partials are.
-/

namespace Mustache

inductive Escape where
  | html
  | none
  deriving DecidableEq

namespace Escape

def apply : Escape → Bytes → Bytes
  | html => Html.escape
  | none => id

def name : Escape → String
  | html => "html"
  | none => "none"

def ofName? (name : String) : Option Escape :=
  if name = "html" then some html
  else if name = "none" then some none
  else Option.none

def choices : String := "Valid: ['html', 'none']"

def unknownMessage (name : String) : String :=
  "Unknown escape function: " ++ name ++ ". " ++ choices

def notCallableMessage (value : Value) : String :=
  "escape must be callable. Got: " ++ value.literal

end Escape

/--
The settings of a render. Partials are files in `directory`, or seen from where the program runs; the
`extension` is appended to their names as it is, and one that is false is none.
-/
structure Settings where
  escape : Escape
  directory : Option Path
  extension : Value

namespace Settings

def standard : Settings := ⟨.html, none, .null⟩

def partialPath (settings : Settings) (name : String) : Except Failure Path :=
  let extended : Except Failure String :=
    match settings.extension with
    | .text extension => .ok (name ++ extension)
    | other => if other.isTrue then .error (.badExtension other.qualifiedTypeName) else .ok name
  extended.map fun fileName =>
    match settings.directory with
    | none => Path.ofText fileName
    | some directory => directory.join (Path.ofText fileName)

end Settings

def Resolver.ofFiles (w : Workspace) (settings : Settings) : Resolver :=
  fun name =>
    match settings.partialPath (Utf8.decode name) with
    | .error failure => .error failure
    | .ok path =>
      match w.find? path with
      | .error error => .error (.file error)
      | .ok (some (.file _)) =>
        match w.read path with
        | .error error =>
          let message := "Failed to read partial " ++ path.text ++ ": " ++ error.message
          .error (.render (.unreadable path.text message))
        | .ok content =>
          let size := toString content.length
          .ok ⟨some content, some ("Loaded partial " ++ path.text ++ " (" ++ size ++ " bytes)")⟩
      | .ok _ => .ok ⟨.none, some ("Partial not found: " ++ path.text)⟩

namespace Settings

def engine (settings : Settings) (w : Workspace) : Engine :=
  ⟨settings.escape.apply, Resolver.ofFiles w settings⟩

def unreadable (path : Path) (error : FileError) : Failure :=
  if error.fault = .nullCharacter then
    .file error
  else
    let message := "Failed to read template " ++ path.text ++ ": " ++ error.message
    .render (.unreadable path.text message)

def renderFile (settings : Settings) (w : Workspace) (path : Path) (context : Context) : Run :=
  match w.read path with
  | .error error => .fail (unreadable path error)
  | .ok template => (settings.engine w).render template context

end Settings

end Mustache
