import Mustache.Text.Quoted

/-!
This module contains file paths. They are kept without empty components and without dots that stand
for the directory itself; two dots are kept, since what they lead to depends on the files.
-/

namespace Mustache

/-- Where a path starts. Exactly two leading slashes are an anchor of their own. -/
inductive Anchor where
  | relative
  | root
  | doubleRoot
  deriving DecidableEq

structure Path where
  anchor : Anchor
  parts : List String
  deriving DecidableEq

namespace Path

def rawParts (s : String) : List String :=
  (pieces '/' s.toList).map String.ofList

def anchorOf (s : String) : Anchor :=
  match (s.toList.takeWhile (· == '/')).length with
  | 0 => .relative
  | 2 => .doubleRoot
  | _ => .root

def ofText (s : String) : Path :=
  ⟨anchorOf s, (rawParts s).filter fun part => part ≠ "" ∧ part ≠ "."⟩

def text (path : Path) : String :=
  let joined := String.intercalate "/" path.parts
  match path.anchor with
  | .relative => if path.parts = [] then "." else joined
  | .root => "/" ++ joined
  | .doubleRoot => "//" ++ joined

def isAbsolute (path : Path) : Bool :=
  path.anchor ≠ .relative

def join (path other : Path) : Path :=
  if other.isAbsolute then other else ⟨path.anchor, path.parts ++ other.parts⟩

def name (path : Path) : String :=
  path.parts.getLastD ""

def parent (path : Path) : Path :=
  ⟨path.anchor, path.parts.dropLast⟩

end Path

inductive FileFault where
  | notFound
  | alreadyExists
  | notDirectory
  | isDirectory
  | nameTooLong
  | nullCharacter
  | denied
  deriving DecidableEq

structure FileError where
  fault : FileFault
  path : String
  deriving DecidableEq

namespace FileError

def message (error : FileError) : String :=
  match error.fault with
  | .notFound => "[Errno 2] No such file or directory: " ++ Quoted.text error.path
  | .alreadyExists => "[Errno 17] File exists: " ++ Quoted.text error.path
  | .notDirectory => "[Errno 20] Not a directory: " ++ Quoted.text error.path
  | .isDirectory => "[Errno 21] Is a directory: " ++ Quoted.text error.path
  | .nameTooLong => "[Errno 36] File name too long: " ++ Quoted.text error.path
  | .nullCharacter => "embedded null byte"
  | .denied => "denied"

end FileError

end Mustache
