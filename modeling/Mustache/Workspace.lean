import Mustache.Partials

/-!
This module contains the files that the program works on, as a value: reading looks files up in it,
and writing gives a new one.
-/

namespace Mustache

inductive Node where
  | file (content : Bytes)
  | directory
  deriving DecidableEq

abbrev Location := List String

/--
Files and directories by their location. Relative paths start at `home`, which is a directory like all
that lead to it. Reading a path of `unreadable` is denied.
-/
structure Workspace where
  home : Location
  nodes : List (Location × Node)
  unreadable : List String

namespace Workspace

def node? (w : Workspace) (place : Location) : Option Node :=
  if place.isPrefixOf w.home then some .directory else w.nodes.lookup place

def maxNameLength : Nat := 255

def maxPathLength : Nat := 4095

def follow (w : Workspace) (place : Location) : List String → Except FileFault Location
  | [] => .ok place
  | part :: rest =>
    match w.node? place with
    | none => .error .notFound
    | some (.file _) => .error .notDirectory
    | some .directory =>
      if part = "" ∨ part = "." then
        w.follow place rest
      else if part = ".." then
        w.follow place.dropLast rest
      else if maxNameLength < (Utf8.encode part).length then
        .error .nameTooLong
      else
        w.follow (place ++ [part]) rest

/--
The location that a path as it is written leads to. There may be nothing at it, and an empty path leads
nowhere.
-/
def locate (w : Workspace) (path : String) : Except FileFault Location :=
  if '\x00' ∈ path.toList then
    .error .nullCharacter
  else if path = "" then
    .error .notFound
  else if maxPathLength < (Utf8.encode path).length then
    .error .nameTooLong
  else
    w.follow (if Path.anchorOf path = .relative then w.home else []) (Path.rawParts path)

def stat (w : Workspace) (path : String) : Except FileFault Node :=
  match w.locate path with
  | .error fault => .error fault
  | .ok place =>
    match w.node? place with
    | none => .error .notFound
    | some node => .ok node

def find? (w : Workspace) (path : Path) : Except FileError (Option Node) :=
  match w.stat path.text with
  | .ok node => .ok (some node)
  | .error .nameTooLong => .error ⟨.nameTooLong, path.text⟩
  | .error _ => .ok none

def content (w : Workspace) (path : Path) : Except FileError Bytes :=
  match w.stat path.text with
  | .error fault => .error ⟨fault, path.text⟩
  | .ok .directory => .error ⟨.isDirectory, path.text⟩
  | .ok (.file content) => .ok content

def read (w : Workspace) (path : Path) : Except FileError Bytes :=
  if w.unreadable.contains path.text then
    .error ⟨.denied, path.text⟩
  else
    w.content path

def put (w : Workspace) (place : Location) (node : Node) : Workspace :=
  { w with nodes := (place, node) :: w.nodes.filter fun entry => entry.1 ≠ place }

def write (w : Workspace) (path : Path) (content : Bytes) : Except FileError Workspace :=
  match w.locate path.text with
  | .error fault => .error ⟨fault, path.text⟩
  | .ok place =>
    match w.node? place with
    | some .directory => .error ⟨.isDirectory, path.text⟩
    | _ => .ok (w.put place (.file content))

def makeDirectory (w : Workspace) (path : Path) : Except FileError Workspace :=
  match w.locate path.text with
  | .error fault => .error ⟨fault, path.text⟩
  | .ok place =>
    match w.node? place with
    | some _ => .error ⟨.alreadyExists, path.text⟩
    | none => .ok (w.put place .directory)

def isDirectory (w : Workspace) (path : Path) : Bool :=
  match w.stat path.text with
  | .ok .directory => true
  | _ => false

def ensureDirectory (w : Workspace) (path : Path) : Except FileError Workspace :=
  match w.makeDirectory path with
  | .ok w => .ok w
  | .error error => if error.fault ≠ .notFound ∧ w.isDirectory path then .ok w else .error error

/--
Makes a directory unless it is there, and first those that lead to it. Directories that are made
before one cannot be made stay.
-/
def ensureDirectories (w : Workspace) (path : Path) : Workspace × Option FileError :=
  match w.ensureDirectory path with
  | .ok w => (w, none)
  | .error error =>
    if _h : error.fault = .notFound ∧ path.parts ≠ [] then
      match w.ensureDirectories path.parent with
      | (w, some error) => (w, some error)
      | (w, none) =>
        match w.ensureDirectory path with
        | .ok w => (w, none)
        | .error error => (w, some error)
    else
      (w, some error)
termination_by path.parts.length
decreasing_by
  have := List.length_pos_iff.mpr _h.2
  simp only [Path.parent, List.length_dropLast]
  omega

end Workspace

end Mustache
