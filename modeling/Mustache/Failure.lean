import Mustache.Number.Digits
import Mustache.Path
import Mustache.Text.Utf8

/-!
This module contains the ways in which a render fails. Nothing in a template is among them: they come
from callouts, from files and from the data.
-/

namespace Mustache

/-- The errors of rendering proper. A callout may raise them itself, and they pass unchanged. -/
inductive RenderError where
  | plain (message : String)
  | callout (name : Bytes) (reason : String)
  | unreadable (path message : String)
  deriving DecidableEq

namespace RenderError

def message : RenderError → String
  | plain message => message
  | callout name reason => "Lambda for section '" ++ Utf8.decode name ++ "' failed: " ++ reason
  | unreadable _ message => message

end RenderError

inductive CalloutFailure where
  | render (error : RenderError)
  | other (text : String)
  deriving DecidableEq

inductive MagnitudeError where
  | integer
  | ratio
  | decimal
  | signaling
  deriving DecidableEq

namespace MagnitudeError

def message : MagnitudeError → String
  | integer => "int too large to convert to float"
  | ratio => "integer division result too large for a float"
  | decimal => "[<class 'decimal.Overflow'>]"
  | signaling => "[<class 'decimal.InvalidOperation'>]"

end MagnitudeError

inductive Failure where
  | render (error : RenderError)
  | magnitude (error : MagnitudeError)
  | longIndex (digits : Nat)
  | longInteger
  | badExtension (typeName : String)
  | file (error : FileError)
  | tooDeep
  deriving DecidableEq

namespace Failure

def message : Failure → String
  | render error => error.message
  | magnitude error => error.message
  | longIndex digits => Digits.message (some digits)
  | longInteger => Digits.message none
  | badExtension typeName => "can only concatenate str (not \"" ++ typeName ++ "\") to str"
  | file error => error.message
  | tooDeep => "partials are nested too deeply"

end Failure

end Mustache
