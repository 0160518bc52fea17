import Mustache.Log.Instant
import Mustache.Number.Digits
import Mustache.Text.Json
import Mustache.Value.Name
import Mustache.Value.Text

/-!
This module contains log records and the three forms that they are written in.
-/

namespace Mustache

inductive Json.Fault where
  | longInteger
  | badKey (typeName : String)
  deriving DecidableEq

def Json.Fault.message : Json.Fault → String
  | longInteger => Digits.message none
  | badKey typeName => "keys must be str, int, float, bool or None, not " ++ typeName

def Json.ofInt (n : Int) : Except Json.Fault Json :=
  if Digits.exceedLimit n.natAbs then .error .longInteger else .ok (.int n)

def Key.toJson : Key Text → Except Json.Fault Text
  | .text s => .ok s
  | .null => .ok "null"
  | .bool b => .ok (if b then "true" else "false")
  | .int n => (Json.ofInt n).map fun _ => toString n
  | .float x => .ok (Json.floatText x)
  | .other typeName _ => .error (.badKey typeName)

mutual

/-- The JSON form of a value. What JSON has no form for is written as its text. -/
def Value.toJson : Value Text → Except Json.Fault Json
  | .null => .ok .null
  | .bool b => .ok (.bool b)
  | .int n => Json.ofInt n
  | .float x => .ok (.float x)
  | .text s => .ok (.text s)
  | .list items => (Value.itemsToJson items).map .array
  | .tuple items => (Value.itemsToJson items).map .array
  | .record .mapping fields => (Value.fieldsToJson fields).map .object
  | .record .row fields => (Value.rowToJson fields).map .array
  | value => if value.hasText then .ok (.text value.display) else .error .longInteger

def Value.itemsToJson : List (Value Text) → Except Json.Fault (List Json)
  | [] => .ok []
  | value :: rest => do
    let json ← value.toJson
    let rest ← Value.itemsToJson rest
    return json :: rest

def Value.fieldsToJson : List (Key Text × Value Text) → Except Json.Fault (List (Text × Json))
  | [] => .ok []
  | (key, value) :: rest => do
    let name ← key.toJson
    let json ← value.toJson
    let rest ← Value.fieldsToJson rest
    return (name, json) :: rest

def Value.rowToJson : List (Key Text × Value Text) → Except Json.Fault (List Json)
  | [] => .ok []
  | (_, value) :: rest => do
    let json ← value.toJson
    let rest ← Value.rowToJson rest
    return json :: rest

end

def Value.mapping (fields : List (Text × Value Text)) : Value Text :=
  .record .mapping (fields.map fun field => (.text field.1, field.2))

namespace Log

abbrev Level := Int

namespace Level

def debug : Level := 10
def info : Level := 20
def warning : Level := 30
def error : Level := 40
def critical : Level := 50

def name (level : Level) : String :=
  if level = 0 then "NOTSET"
  else if level = debug then "DEBUG"
  else if level = info then "INFO"
  else if level = warning then "WARNING"
  else if level = error then "ERROR"
  else if level = critical then "CRITICAL"
  else "Level " ++ toString level

def escape (code : String) : String := "\x1b[" ++ code ++ "m"

def reset : String := escape "0"

def colour (level : Level) : String :=
  if level = debug then escape "90"
  else if level = info then escape "32"
  else if level = warning then escape "33"
  else if level = error ∨ level = critical then escape "31"
  else reset

def tag (level : Level) (colours : Bool) : String :=
  let plain := "[" ++ level.name ++ "]"
  if colours then level.colour ++ plain ++ reset else plain

end Level

structure Record where
  level : Level
  logger : Text
  message : Text
  time : Time
  exception : Option Text
  extra : List (Text × Value Text)

inductive Mode where
  | human
  | verbose
  | json
  deriving DecidableEq

namespace Record

def exceptionText (record : Record) : Text :=
  match record.exception with
  | none => []
  | some text => if text = [] then "\nValueError" else Text.ofString "\nValueError: " ++ text

/-- Sets a member of an object: one that is there keeps its place. -/
def setMember (members : List (Text × α)) (member : Text × α) : List (Text × α) :=
  if members.any fun other => other.1 == member.1 then
    members.map fun other => if other.1 == member.1 then member else other
  else
    members ++ [member]

def own (record : Record) : List (Text × Value Text) := [
  ("level", .text record.level.name),
  ("ts", .text record.time.instant.text),
  ("logger", .text record.logger),
  ("msg", .text record.message)]

def toJson (record : Record) : Except Json.Fault Json :=
  (Value.mapping (record.extra.foldl setMember record.own)).toJson

inductive Fault where
  | time (fault : CalendarFault)
  | json (fault : Json.Fault)
  deriving DecidableEq

def Fault.message : Fault → String
  | time fault => fault.message
  | json fault => fault.message

def text? (record : Record) (mode : Mode) (colours : Bool) : Except Fault Text :=
  let tag := Text.ofString (record.level.tag colours)
  match mode with
  | .human => .ok (tag ++ Text.ofString " " ++ record.message ++ record.exceptionText)
  | .verbose =>
    match record.time.clockFault? with
    | some fault => .error (.time fault)
    | none =>
      let clock := Text.ofString ("[" ++ record.time.clock ++ "] ")
      .ok (tag ++ clock ++ record.logger ++ Text.ofString ": " ++ record.message ++ record.exceptionText)
  | .json =>
    match record.time.instant.fault? with
    | some fault => .error (.time fault)
    | none => (record.toJson.mapError .json).map fun json => String.ofList json.line

end Record

end Log

end Mustache
