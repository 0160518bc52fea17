import Mustache.Document
import Mustache.Value.Narrow
import Mustache.Yaml.Document

/-!
This module contains the loader that the program brings along. It knows JSON and the plain part of YAML that
configurations and data are written in. Of the rest of YAML it knows nothing, and no theorem is about it.
-/

namespace Mustache.Yaml

def Fault.typeName : Fault → String
  | malformed => "YAMLError"
  | unprintable .. => "ReaderError"
  | scalar fault => if fault.isOverflow then "OverflowError" else "ValueError"
  | content .. => "ConstructorError"

def Fault.family : Fault → LoadFault.Family
  | scalar fault => if fault.isOverflow then .other else .value
  | _ => .document

def Fault.toLoadFault (source : Source) (fault : Fault) : LoadFault :=
  ⟨fault.family, fault.typeName, fault.message source⟩

/-- In a stream a character that the end cuts off is counted from itself. -/
def streamFault (fault : Utf8.Fault) : LoadFault :=
  let fault := if fault.reason = .cutOff then { fault with start := 0 } else fault
  ⟨.value, "UnicodeDecodeError", fault.message⟩

def loader : Loader where
  ofText text :=
    let source : Source := ⟨"<unicode string>", text.toList, true⟩
    ((document text.toList).mapError (Fault.toLoadFault source)).map Value.narrow
  ofStream name content :=
    match Utf8.fault? content with
    | some fault => .error (streamFault fault)
    | none =>
      let text := unifyBreaks (Utf8.decode content).toList
      (document text).mapError (Fault.toLoadFault ⟨name, text, false⟩)

end Mustache.Yaml
