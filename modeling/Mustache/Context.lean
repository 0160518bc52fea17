import Mustache.Value.Name

/-!
This module contains the contexts that values give: a record is a context for the names of its fields,
and each item of a list is a context for its own.
-/

namespace Mustache

namespace Context

def self : Bytes := [Bytes.dot]

/--
The context of a record. The field of the whole name comes first. Failing that, a name with a dot asks
the record in the field before the first dot for what stands after it.
-/
def ofFields (field? : String → Option Binding) (inner? : String → Option Context) : Context :=
  fun name =>
    let key := Utf8.decode name
    match field? key with
    | some binding => binding
    | none =>
      match cutAt? '.' key.toList with
      | none => .absent
      | some (head, rest) =>
        match inner? (String.ofList head) with
        | none => .absent
        | some context => context (Utf8.encode (String.ofList rest))

/--
The context of an item with the given binding. Only records know other names than that of the item
itself, and asked for itself a record is a list of the one context of its fields.
-/
def ofItem (fields? : Option Context) (binding : Binding) : Context :=
  fun name =>
    match fields? with
    | none => if name = self then binding else .absent
    | some fields => if name = self then .list [fields] else fields name

def toCallout (context : Context) : Callout :=
  .mk none fun body => .ok (.bound (context body))

end Context

mutual

/--
The binding that a value stands for. Records are lists of one context, so that a section enters them;
other sequences are lists of the contexts of their items.
-/
def Value.toBinding : Value → Binding
  | .null => .absent
  | .bool b => .flag b
  | .bytes .view b => .list (b.map fun n => Context.ofItem none (.variable (.int n.toNat)))
  | .list items => .list (Value.itemContexts items)
  | .tuple items => .list (Value.itemContexts items)
  | .set items => .list (Value.itemContexts items)
  | .record _ fields => .list [Context.ofFields (Value.field? fields) (Value.inner? fields)]
  | .date d => .variable (.text d.text)
  | .moment m => .variable (.text m.text)
  | .foreign text => .variable (.text text)
  | .function callout => .callout false callout
  | .bound binding => binding
  | value => .variable value

def Value.context? : Value → Option Context
  | .record _ fields => some (Context.ofFields (Value.field? fields) (Value.inner? fields))
  | .bound binding => binding.context?
  | _ => none

def Value.itemContexts : List Value → List Context
  | [] => []
  | value :: rest => Context.ofItem value.context? value.toBinding :: Value.itemContexts rest

def Value.field? : List (Key × Value) → String → Option Binding
  | [], _ => none
  | (name, value) :: rest, key => if name = .text key then some value.toBinding else Value.field? rest key

def Value.inner? : List (Key × Value) → String → Option Context
  | [], _ => none
  | (name, value) :: rest, key => if name = .text key then value.context? else Value.inner? rest key

def Binding.context? : Binding → Option Context
  | .absent => none
  | .variable value =>
    some (Context.ofFields
      (fun key => if key = "value" then some value.toBinding else none)
      (fun key => if key = "value" then value.context? else none))
  | .list items =>
    let contexts := items.map fun item =>
      Context.ofItem none (.callout false (Context.toCallout item))
    some (Context.ofFields
      (fun key => if key = "items" then some (.list contexts) else none)
      (fun _ => none))
  | .flag b =>
    some (Context.ofFields
      (fun key => if key = "flag" then some (.flag b) else none)
      (fun _ => none))
  | .callout _ callout =>
    some (Context.ofFields
      (fun key => if key = "func" then some (.callout false callout) else none)
      (fun _ => none))

end

namespace Binding

def fieldNames : Binding → Option (List String)
  | .absent => none
  | .variable _ => some ["value"]
  | .list _ => some ["items"]
  | .flag _ => some ["flag"]
  | .callout .. => some ["func"]

end Binding

namespace Value

def fieldNames : Value → Option (List String)
  | .record _ fields => some (fields.filterMap fun field => field.1.name?)
  | .bound binding => binding.fieldNames
  | _ => none

end Value

structure NotRecord where
  typeName : String

namespace NotRecord

def message (error : NotRecord) : String :=
  "Cannot build a context from " ++ error.typeName

end NotRecord

namespace Context

def ofData (fields : List (Key × Value)) : Context :=
  ofFields (Value.field? fields) (Value.inner? fields)

def ofRecord (value : Value) : Except NotRecord Context :=
  match value.context? with
  | some context => .ok context
  | none => .error ⟨value.typeName⟩

def ofFunction (source : String → Value) : Context :=
  fun name => (source (Utf8.decode name)).toBinding

end Context

end Mustache
