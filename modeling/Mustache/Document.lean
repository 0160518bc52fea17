import Mustache.Text.CodePoint
import Mustache.Value.Basic
import Mustache.Workspace

/-!
This module contains documents: texts and files that stand for a value. Which value this is, is left to a
loader.
-/

namespace Mustache

namespace Utf8

def Reason.text : Reason → String
  | badStart => "invalid start byte"
  | badContinuation => "invalid continuation byte"
  | cutOff => "unexpected end of data"

def Fault.message (fault : Fault) : String :=
  let place :=
    if fault.length = 1 then
      "byte 0x" ++ String.ofList (Quoted.hexadecimal 2 fault.first.toNat) ++ " in position " ++
        toString fault.start
    else
      "bytes in position " ++ toString fault.start ++ "-" ++
        toString (fault.start + fault.length - 1)
  "'utf-8' codec can't decode " ++ place ++ ": " ++ fault.reason.text

end Utf8

inductive LoadFault.Family where
  | document
  | value
  | other
  deriving DecidableEq

structure LoadFault where
  family : LoadFault.Family
  typeName : String
  message : String
  deriving DecidableEq

def LoadFault.isReported (fault : LoadFault) : Bool :=
  fault.family ≠ .other

/--
Reads the values of documents. It gets the text of a document, or an open file: then the name is there to be told in
messages, and the bytes are decoded as they are read.
-/
structure Loader where
  ofText : String → Except LoadFault Value
  /-- An escape may stand for a surrogate. Of data with surrogates nothing is said. -/
  ofStream : String → Bytes → Except LoadFault (Value Text)

inductive DocumentError where
  | file (error : FileError)
  | encoding (fault : Utf8.Fault)
  | load (fault : LoadFault)
  deriving DecidableEq

namespace DocumentError

def isReported : DocumentError → Bool
  | load fault => fault.isReported
  | _ => true

def message : DocumentError → String
  | file error => error.message
  | encoding fault => fault.message
  | load fault => fault.message

end DocumentError

def unifyBreaks : List Char → List Char
  | [] => []
  | '\r' :: '\n' :: rest => '\n' :: unifyBreaks rest
  | '\r' :: rest => '\n' :: unifyBreaks rest
  | c :: rest => c :: unifyBreaks rest

namespace Loader

def readText (loader : Loader) (w : Workspace) (path : Path) : Except DocumentError Value := do
  let content ← (w.content path).mapError .file
  match Utf8.fault? content with
  | some fault => throw (.encoding fault)
  | none =>
    let text := unifyBreaks (Utf8.decode content).toList
    (loader.ofText (String.ofList text)).mapError .load

def readStream (loader : Loader) (w : Workspace) (path : Path) : Except DocumentError (Value Text) := do
  let content ← (w.content path).mapError .file
  (loader.ofStream path.text content).mapError .load

end Loader

end Mustache
