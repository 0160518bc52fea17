import Mustache.Context
import Mustache.Value.Text
import Mustache.Value.Empty

/-!
This module contains the lookup of names in a stack of contexts, the innermost first. A name such as
`users.1.name` also addresses an item of a list by its index. A name that nothing knows is no error.
-/

namespace Mustache

abbrev Stack := List Context

structure ItemPath where
  list : Bytes
  index : Bytes
  inner : Bytes
  deriving DecidableEq

namespace ItemPath

/--
Reads a list, a dot and an index of ASCII digits. After another dot stands the name to ask the item;
without one, the item is asked for itself.
-/
def ofName? (name : Bytes) : Option ItemPath :=
  match cutAt? Bytes.dot name with
  | none => none
  | some (list, rest) =>
    let index := rest.takeWhile Bytes.isDigit
    if index = [] then
      none
    else
      match rest.dropWhile Bytes.isDigit with
      | [] => some ⟨list, index, Context.self⟩
      | b :: inner => if b = Bytes.dot then some ⟨list, index, inner⟩ else none

theorem inner_length_lt {name : Bytes} {path : ItemPath} (h : ofName? name = some path) :
    path.inner.length < name.length := by
  simp only [ofName?] at h
  split at h
  . simp at h
  . next list rest hcut =>
    have hname := length_of_cutAt? hcut
    have hrest := congrArg List.length
      (List.takeWhile_append_dropWhile (p := Bytes.isDigit) (l := rest))
    simp only [List.length_append] at hrest
    split at h
    . simp at h
    . next hindex =>
      have := List.length_pos_iff.mpr hindex
      split at h
      . simp only [Option.some.injEq] at h
        subst h
        simp only [Context.self, List.length_cons, List.length_nil]
        omega
      . next b inner hinner =>
        split at h
        . simp only [Option.some.injEq] at h
          subst h
          rw [hinner, List.length_cons] at hrest
          simp only
          omega
        . simp at h

def number (digits : Bytes) : Nat :=
  digits.foldl (fun n b => n * 10 + (b.toNat - 0x30)) 0

end ItemPath

def Context.item? (context : Context) (path : ItemPath) : Except Failure (Option Context) :=
  match context path.list with
  | .list items =>
    if Digits.limit < path.index.length then
      .error (.longIndex path.index.length)
    else
      .ok items[ItemPath.number path.index]?
  | _ => .ok none

/--
The bytes that a context has for a name, or nothing if the name is not known. What is known but is no
variable and no flag has no bytes, yet ends the search.
-/
def Context.read? (context : Context) (name : Bytes) : Except Failure (Option Bytes) :=
  match context name with
  | .variable value => value.render?.map some
  | .flag b => .ok (some (Utf8.encode (Value.boolText b)))
  | .absent =>
    match _h : ItemPath.ofName? name with
    | none => .ok none
    | some path =>
      match context.item? path with
      | .error failure => .error failure
      | .ok none => .ok none
      | .ok (some item) => (Context.read? item path.inner).map fun bytes => some (bytes.getD [])
  | _ => .ok (some [])
termination_by name.length
decreasing_by
  exact ItemPath.inner_length_lt _h

namespace Stack

def read (stack : Stack) (name : Bytes) : Except Failure Bytes :=
  match stack with
  | [] => .ok []
  | context :: rest =>
    match context.read? name with
    | .error failure => .error failure
    | .ok (some bytes) => .ok bytes
    | .ok none => read rest name

def bound? (stack : Stack) (name : Bytes) : Option Binding :=
  stack.findSome? fun context =>
    let binding := context name
    if binding.isAbsent then none else some binding

def itemBinding? (stack : Stack) (path : ItemPath) : Except Failure (Option Binding) :=
  match stack with
  | [] => .ok none
  | context :: rest =>
    match context.item? path with
    | .error failure => .error failure
    | .ok (some item) => .ok (some (item path.inner))
    | .ok none => itemBinding? rest path

/-- The binding that drives a section. Items are looked for only if no context knows the name. -/
def probe (stack : Stack) (name : Bytes) : Except Failure (Option Binding) :=
  match stack.bound? name with
  | some binding => .ok (some binding)
  | none =>
    match ItemPath.ofName? name with
    | none => .ok none
    | some path => stack.itemBinding? path

end Stack

end Mustache
