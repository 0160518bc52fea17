import Mustache.Calendar
import Mustache.Failure
import Mustache.Number.Decimal

/-!
This module contains the data that templates are rendered with. A `Value` is data as it comes, and a
`Binding` is what a name stands for in a context: a context is a function from names to bindings.
Values can hold bindings, and bindings values.
-/

namespace Mustache

/-- How a byte string is held. A view is not text: its items are numbers. -/
inductive Octets where
  | string
  | buffer
  | view
  deriving DecidableEq

/-- The kinds of values with named fields. The fields of a row are also a sequence. -/
inductive Shape where
  | mapping
  | object
  | row
  deriving DecidableEq

/-- What a field is found by. Only texts are asked for; of some other keys only what their text forms need is kept. -/
inductive Key (τ : Type := String) where
  | text (s : τ)
  | null
  | bool (b : Bool)
  | int (n : Int)
  | float (x : Binary64)
  | other (typeName : String) (literal : τ)
  deriving DecidableEq

namespace Key

def name? : Key → Option String
  | text s => some s
  | _ => none

end Key

mutual

inductive Value (τ : Type := String) where
  | null
  | bool (b : Bool)
  | int (n : Int)
  | float (x : Binary64)
  | decimal (d : Decimal)
  | ratio (q : Rat)
  | date (d : Date)
  | moment (m : Moment)
  | text (s : τ)
  | bytes (kind : Octets) (b : Bytes)
  | list (items : List (Value τ))
  | tuple (items : List (Value τ))
  | set (items : List (Value τ))
  | record (shape : Shape) (fields : List (Key τ × Value τ))
  | foreign (text : τ)
  | function (callout : Callout τ)
  | bound (binding : Binding τ)

/-- A function on the body of a section; calls of one with a label are recorded under it. -/
inductive Callout (τ : Type := String) where
  | mk (label : Option String) (run : Bytes → Except CalloutFailure (Value τ))

inductive Binding (τ : Type := String) where
  | absent
  | variable (value : Value τ)
  | list (items : List (Bytes → Binding τ))
  | flag (b : Bool)
  | callout (effectful : Bool) (callout : Callout τ)

end

abbrev Context := Bytes → Binding

instance : Inhabited (Value τ) := ⟨.null⟩
instance : Inhabited (Binding τ) := ⟨.absent⟩

namespace Callout

def label : Callout τ → Option String
  | mk label _ => label

def run : Callout τ → Bytes → Except CalloutFailure (Value τ)
  | mk _ run => run

end Callout

namespace Binding

def isAbsent : Binding → Bool
  | absent => true
  | _ => false

end Binding

namespace Context

def empty : Context := fun _ => .absent

end Context

end Mustache
