import Mustache.Failure

/-!
This module contains partials: templates that other templates insert by name. A name that stands for
no partial inserts nothing.
-/

namespace Mustache

structure Loaded where
  content : Option Bytes
  remark : Option String

abbrev Resolver := Bytes → Except Failure Loaded

namespace Resolver

def none : Resolver := fun _ => .ok ⟨.none, .none⟩

def ofTable (table : List (Bytes × Bytes)) : Resolver :=
  fun name =>
    match table.lookup name with
    | some content => .ok ⟨some content, .none⟩
    | .none => .ok ⟨.none, some ("Partial not registered: " ++ Utf8.decode name)⟩

end Resolver

end Mustache
