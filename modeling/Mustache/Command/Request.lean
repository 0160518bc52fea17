import Mustache.Document
import Mustache.Log.Setup

/-!
This module contains what a command line may ask for. How it is read is left to a reader: it takes the options in
front of a command first, and only when the configuration is loaded those of the command.
-/

namespace Mustache.Command

structure RenderOptions where
  template : Path
  data : Option Path
  output : Option Path
  directory : Option Path
  extension : Option String
  noEscape : Bool

structure ValidateOptions where
  template : Path
  json : Bool

structure InitOptions where
  force : Bool

inductive Request where
  | render (options : RenderOptions)
  | validate (options : ValidateOptions)
  | init (options : InitOptions)
  | help (text : String)

inductive Name where
  | render
  | validate
  | init
  deriving DecidableEq

/-- A command line up to the name of a command, and the arguments after it. -/
structure Call where
  flags : Log.Flags
  config : Option Path
  name : Name
  args : List String

inductive Invocation where
  | version
  | help (text : String)
  | call (call : Call)

inductive Refusal where
  | usage
  | file (error : FileError)
  deriving DecidableEq

/-- It may look at the files that arguments name. -/
structure LineReader where
  invocation : Workspace → List String → Except Refusal Invocation
  request : Workspace → Name → List String → Except Refusal Request

structure Libraries where
  loader : Loader
  reader : LineReader

end Mustache.Command
