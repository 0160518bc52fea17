import Mustache.Value.Basic

/-!
This module contains the names of the types of values, which errors mention, and the values that cannot
be looked up among names.
-/

namespace Mustache

def Binding.typeName : Binding τ → String
  | .absent => "_Absent"
  | .variable _ => "Variable"
  | .list _ => "ListValue"
  | .flag _ => "BoolValue"
  | .callout effectful _ => if effectful then "LambdaM" else "Lambda"

def Value.typeName : Value τ → String
  | .null => "NoneType"
  | .bool _ => "bool"
  | .int _ => "int"
  | .float _ => "float"
  | .decimal _ => "Decimal"
  | .ratio _ => "Fraction"
  | .date _ => "date"
  | .moment _ => "datetime"
  | .text _ => "str"
  | .bytes .string _ => "bytes"
  | .bytes .buffer _ => "bytearray"
  | .bytes .view _ => "memoryview"
  | .list _ => "list"
  | .tuple _ => "tuple"
  | .set _ => "frozenset"
  | .record .mapping _ => "dict"
  | .record _ _ => "Record"
  | .foreign _ => "object"
  | .function _ => "function"
  | .bound binding => binding.typeName

def Value.qualifiedTypeName : Value τ → String
  | .decimal _ => "decimal.Decimal"
  | .date _ => "datetime.date"
  | .moment _ => "datetime.datetime"
  | value => value.typeName

inductive LookupFault where
  | changeable (typeName : String)
  | signaling
  deriving DecidableEq

namespace LookupFault

def message : LookupFault → String
  | changeable typeName => "unhashable type: '" ++ typeName ++ "'"
  | signaling => "Cannot hash a signaling NaN value"

end LookupFault

mutual

def Value.lookupFault? : Value → Option LookupFault
  | .list _ => some (.changeable "list")
  | .record .mapping _ => some (.changeable "dict")
  | .record .object _ => some (.changeable "Record")
  | .bytes .buffer _ => some (.changeable "bytearray")
  | .decimal d => if d.isSignaling then some .signaling else none
  | .tuple items => Value.firstLookupFault? items
  | .record .row fields => Value.firstFieldLookupFault? fields
  | .bound (.variable value) => value.lookupFault?
  | _ => none

def Value.firstLookupFault? : List Value → Option LookupFault
  | [] => none
  | value :: rest => value.lookupFault?.or (Value.firstLookupFault? rest)

def Value.firstFieldLookupFault? : List (Key × Value) → Option LookupFault
  | [] => none
  | (_, value) :: rest => value.lookupFault?.or (Value.firstFieldLookupFault? rest)

end

end Mustache
