import Mustache.Text.CodePoint
import Mustache.Value.Basic

/-!
This module contains the values that are left when texts may hold no surrogates.
-/

namespace Mustache

def Key.narrow : Key Text → Key
  | .text s => .text s.narrow
  | .null => .null
  | .bool b => .bool b
  | .int n => .int n
  | .float x => .float x
  | .other typeName literal => .other typeName literal.narrow

mutual

def Value.narrow : Value Text → Value
  | .null => .null
  | .bool b => .bool b
  | .int n => .int n
  | .float x => .float x
  | .decimal d => .decimal d
  | .ratio q => .ratio q
  | .date d => .date d
  | .moment m => .moment m
  | .text s => .text s.narrow
  | .bytes kind b => .bytes kind b
  | .list items => .list (Value.narrowItems items)
  | .tuple items => .tuple (Value.narrowItems items)
  | .set items => .set (Value.narrowItems items)
  | .record shape fields => .record shape (Value.narrowFields fields)
  | .foreign text => .foreign text.narrow
  | .function callout => .function callout.narrow
  | .bound binding => .bound binding.narrow

def Value.narrowItems : List (Value Text) → List Value
  | [] => []
  | value :: rest => value.narrow :: Value.narrowItems rest

def Value.narrowFields : List (Key Text × Value Text) → List (Key × Value)
  | [] => []
  | (key, value) :: rest => (key.narrow, value.narrow) :: Value.narrowFields rest

def Value.narrowResult : Except CalloutFailure (Value Text) → Except CalloutFailure Value
  | .error failure => .error failure
  | .ok value => .ok value.narrow

def Callout.narrow : Callout Text → Callout
  | .mk label run => .mk label fun body => Value.narrowResult (run body)

def Binding.narrow : Binding Text → Binding
  | .absent => .absent
  | .variable value => .variable value.narrow
  | .list items => .list (Binding.narrowContexts items)
  | .flag b => .flag b
  | .callout effectful callout => .callout effectful callout.narrow

def Binding.narrowContexts : List (Bytes → Binding Text) → List (Bytes → Binding)
  | [] => []
  | context :: rest => (fun name => (context name).narrow) :: Binding.narrowContexts rest

end

end Mustache
