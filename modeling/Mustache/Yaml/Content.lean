import Mustache.Value.Name
import Mustache.Value.Text
import Mustache.Yaml.Node

/-!
This module contains the values of nodes. A mapping may merge others into itself; and some nodes have no
value, in which case the outermost fault is reported, the first of several on one level.
-/

namespace Mustache.Yaml

/--
What tells keys apart. Numbers that are equal are one key, and a flag is a number as well; so are moments
that are the same instant, if their offsets are known.
-/
inductive Identity where
  | nothing
  | text (s : Text)
  | number (q : Rat)
  | infinite (negative : Bool)
  | nan
  | date (date : Date)
  | moment (moment : Moment)
  | instant (micros : Int)
  deriving DecidableEq

def Identity.of? : Value Text → Option Identity
  | .null => some .nothing
  | .bool b => some (.number (if b then 1 else 0))
  | .int n => some (.number n)
  | .float (.finite negative mantissa exponent) =>
    some (.number (Binary64.exactly negative mantissa exponent))
  | .float (.infinite negative) => some (.infinite negative)
  | .float .nan => some .nan
  | .date d => some (.date d)
  | .moment m =>
    match m.instant? with
    | some micros => some (.instant micros)
    | none => some (.moment m)
  | .text s => some (.text s)
  | _ => none

def keyOf : Value Text → Key Text
  | .text s => .text s
  | .null => .null
  | .bool b => .bool b
  | .int n => .int n
  | .float x => .float x
  | value => .other value.typeName value.literal

def insertEntry (entries : List (Identity × Key Text × Value Text)) (identity : Identity)
    (key : Key Text) (value : Value Text) : List (Identity × Key Text × Value Text) :=
  if entries.any fun entry => entry.1 = identity then
    entries.map fun entry =>
      if entry.1 = identity then (identity, entry.2.1, value) else entry
  else
    entries ++ [(identity, key, value)]

/-- A fault and how many levels below the node it is. -/
abbrev Depth := Option (Nat × Fault)

namespace Depth

def earlier (first second : Depth) : Depth :=
  match first, second with
  | some (n, _), some (m, _) => if m < n then second else first
  | none, second => second
  | first, none => first

def deeper (fault : Depth) : Depth :=
  fault.map fun (n, fault) => (n + 1, fault)

end Depth

structure Content where
  value : Value Text
  fault : Depth

structure Entry where
  place : Place
  key : Content
  value : Content

namespace Content

def ofScalar (place : Place) (isPlain : Bool) (text : Text) : Content :=
  if !isPlain then
    ⟨.text text, none⟩
  else if text = Text.ofString "<<" then
    ⟨.null, some (0, .content none (.notValue "merge") place)⟩
  else if text = Text.ofString "=" then
    ⟨.null, some (0, .content none (.notValue "value") place)⟩
  else
    -- Surrogates stand between quotes only, so nothing is lost here.
    match scalar text.narrow with
    | .ok value => ⟨value, none⟩
    | .error fault => ⟨.null, some (0, .scalar fault)⟩

def ofItems (items : List Content) : Content where
  value := .list (items.map (·.value))
  fault := items.foldl (fun fault item => fault.earlier item.fault.deeper) none

def entryFault (place : Place) (entry : Entry) : Depth :=
  let unhashable : Depth :=
    match Identity.of? entry.key.value with
    | some _ => none
    | none => some (1, .content (some place) .unhashableKey entry.place)
  (entry.key.fault.deeper.earlier unhashable).earlier entry.value.fault.deeper

def ofEntries (place : Place) (entries : List Entry) : Content :=
  let fields := entries.foldl (fun fields entry =>
    match Identity.of? entry.key.value with
    | some identity => insertEntry fields identity (keyOf entry.key.value) entry.value.value
    | none => fields) []
  {
    value := .record .mapping (fields.map (·.2))
    fault := entries.foldl (fun fault entry => fault.earlier (entryFault place entry)) none
  }

end Content

namespace Node

def isMerge : Node → Bool
  | scalar _ isPlain text => isPlain && text == Text.ofString "<<"
  | _ => false

def asKey (key : Node) (content : Content) : Content :=
  match key with
  | scalar _ _ text => if text = Text.ofString "=" then ⟨.text text, none⟩ else content
  | _ => content

mutual

def content : Node → Content
  | scalar place isPlain text => .ofScalar place isPlain text
  | sequence _ items => .ofItems (contents items)
  | mapping place entries =>
    match parts place entries with
    | .error fault => ⟨.record .mapping [], some (1, fault)⟩
    | .ok (merged, own) => .ofEntries place (merged ++ own)

def contents : List Node → List Content
  | [] => []
  | item :: rest => item.content :: contents rest

def parts (place : Place) : List (Node × Node) → Except Fault (List Entry × List Entry)
  | [] => .ok ([], [])
  | (key, value) :: rest =>
    if key.isMerge then
      match merged place value with
      | .error fault => .error fault
      | .ok first => (parts place rest).map fun (merged, own) => (first ++ merged, own)
    else
      (parts place rest).map fun (merged, own) =>
        (merged, ⟨key.place, key.asKey key.content, value.content⟩ :: own)

def merged (place : Place) : Node → Except Fault (List Entry)
  | scalar found _ _ => .error (.content (some place) .notMappings found)
  | sequence _ items => mergedItems place items
  | mapping inner entries => (parts inner entries).map fun (merged, own) => merged ++ own

/-- The entries of mappings in a list. The first of them comes last, and so it counts. -/
def mergedItems (place : Place) : List Node → Except Fault (List Entry)
  | [] => .ok []
  | item :: rest =>
    match item.mergedItem place with
    | .error fault => .error fault
    | .ok first => (mergedItems place rest).map (· ++ first)

def mergedItem (place : Place) : Node → Except Fault (List Entry)
  | mapping inner entries => (parts inner entries).map fun (merged, own) => merged ++ own
  | scalar found _ _ => .error (.content (some place) (.notMapping "scalar") found)
  | sequence found _ => .error (.content (some place) (.notMapping "sequence") found)

end

def value (node : Node) : Except Fault (Value Text) :=
  match node.content.fault with
  | some (_, fault) => .error fault
  | none => .ok node.content.value

end Node

end Mustache.Yaml
