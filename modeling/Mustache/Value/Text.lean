import Mustache.Value.Basic
import Mustache.Number.Shortest
import Mustache.Text.CodePoint

/-!
This module contains the texts of values: the literal form that shows a value inside others, and the
bytes that a variable is rendered as.
-/

namespace Mustache

open Textual

variable {τ κ : Type} [Textual τ κ]

namespace Value

def boolText (b : Bool) : String :=
  if b then "True" else "False"

def ratioText (q : Rat) : String :=
  if q.den = 1 then toString q.num else toString q.num ++ "/" ++ toString q.den

def commaSeparated : List τ → τ
  | [] => ofString ""
  | [item] => item
  | item :: rest => item ++ ofString ", " ++ commaSeparated rest

def enclosed (opening : String) (inner : τ) (closing : String) : τ :=
  ofString opening ++ inner ++ ofString closing

def tupleText (items : List τ) : τ :=
  match items with
  | [item] => enclosed "(" item ",)"
  | items => enclosed "(" (commaSeparated items) ")"

end Value

def Key.literal : Key τ → τ
  | .text s => ofString (quoted s)
  | .null => ofString "None"
  | .bool b => ofString (Value.boolText b)
  | .int n => ofString (toString n)
  | .float x => ofString x.text
  | .other _ literal => literal

def Key.label : Key τ → τ
  | .text s => s
  | key => key.literal

mutual

/-- The form that a value is shown in inside others: text is quoted, and wrappers are named. -/
def Value.literal : Value τ → τ
  | .null => ofString "None"
  | .bool b => ofString (Value.boolText b)
  | .int n => ofString (toString n)
  | .float x => ofString x.text
  | .decimal d => ofString ("Decimal('" ++ d.text ++ "')")
  | .ratio q => ofString ("Fraction(" ++ toString q.num ++ ", " ++ toString q.den ++ ")")
  | .date d => ofString d.text
  | .moment m => ofString m.text
  | .text s => ofString (quoted s)
  | .bytes .buffer b => ofString (Quoted.buffer b)
  | .bytes _ b => ofString (Quoted.bytes b)
  | .list items => Value.enclosed "[" (Value.commaSeparated (Value.literals items)) "]"
  | .tuple items => Value.tupleText (Value.literals items)
  | .set [] => ofString "frozenset()"
  | .set items =>
    Value.enclosed "frozenset(\x7b" (Value.commaSeparated (Value.literals items)) "\x7d)"
  | .record .mapping fields =>
    let entries := (Value.fieldLiterals fields).map fun (key, value) =>
      key.literal ++ ofString ": " ++ value
    Value.enclosed "\x7b" (Value.commaSeparated entries) "\x7d"
  | .record _ fields =>
    let entries := (Value.fieldLiterals fields).map fun (key, value) =>
      key.label ++ ofString "=" ++ value
    Value.enclosed "Record(" (Value.commaSeparated entries) ")"
  | .foreign text => text
  | .function _ => ofString "<function>"
  | .bound binding => binding.literal

def Value.literals : List (Value τ) → List τ
  | [] => []
  | value :: rest => value.literal :: Value.literals rest

def Value.fieldLiterals : List (Key τ × Value τ) → List (Key τ × τ)
  | [] => []
  | (key, value) :: rest => (key, value.literal) :: Value.fieldLiterals rest

def Binding.literal : Binding τ → τ
  | .absent => ofString "ABSENT"
  | .variable value => Value.enclosed "Variable(value=" value.literal ")"
  | .list items =>
    Value.enclosed "ListValue(items=" (Value.tupleText (items.map fun _ => ofString "<function>")) ")"
  | .flag b => ofString ("BoolValue(flag=" ++ Value.boolText b ++ ")")
  | .callout effectful _ =>
    ofString ((if effectful then "LambdaM" else "Lambda") ++ "(func=<function>)")

end

namespace Value

def display : Value τ → τ
  | text s => s
  | decimal d => ofString d.text
  | ratio q => ofString (ratioText q)
  | value => value.literal

def bracketed (items : List Bytes) : Bytes :=
  Bytes.ofAscii "[" ++ (items.intersperse (Bytes.ofAscii ",")).flatten ++ Bytes.ofAscii "]"

end Value

mutual

/--
The bytes that a variable is rendered as. Byte strings stay as they are, sequences are rendered item
by item, and all other values have their text.
-/
def Value.render : Value → Bytes
  | .text s => Utf8.encode s
  | .bytes _ b => b
  | .list items => Value.bracketed (Value.renderItems items)
  | .tuple items => Value.bracketed (Value.renderItems items)
  | .record .row fields => Value.bracketed (Value.renderFields fields)
  | .bound binding => binding.render
  | value => Utf8.encode value.display

def Value.renderItems : List Value → List Bytes
  | [] => []
  | value :: rest => value.render :: Value.renderItems rest

def Value.renderFields : List (Key × Value) → List Bytes
  | [] => []
  | (_, value) :: rest => value.render :: Value.renderFields rest

def Binding.render : Binding → Bytes
  | .variable value => value.render
  | binding => Utf8.encode binding.literal

end

mutual

def Value.hasText : Value τ → Bool
  | .int n => !Digits.exceedLimit n.natAbs
  | .ratio q => !Digits.exceedLimit q.num.natAbs && !Digits.exceedLimit q.den
  | .list items => Value.haveText items
  | .tuple items => Value.haveText items
  | .set items => Value.haveText items
  | .record _ fields => Value.fieldsHaveText fields
  | .bound (.variable value) => value.hasText
  | _ => true

def Value.haveText : List (Value τ) → Bool
  | [] => true
  | value :: rest => value.hasText && Value.haveText rest

def Value.fieldsHaveText : List (Key τ × Value τ) → Bool
  | [] => true
  | (_, value) :: rest => value.hasText && Value.fieldsHaveText rest

end

def Value.render? (value : Value) : Except Failure Bytes :=
  if value.hasText then .ok value.render else .error .longInteger

end Mustache
