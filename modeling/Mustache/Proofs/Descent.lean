import Mustache.Proofs.Knows

/-!
This module contains the way that a name takes through items of lists. A variable goes from item to item
for as long as the rest of its name addresses one; a section asks the first item, and no other.
-/

namespace Mustache

namespace Binding

/-- What a variable tag prints: variables and flags. -/
def isPrintable (binding : Binding) : Bool :=
  match binding with
  | «variable» _ => true
  | flag _ => true
  | _ => false

def text? (binding : Binding) : Except Failure Bytes :=
  match binding with
  | «variable» value => value.render?
  | flag b => .ok (Utf8.encode (Value.boolText b))
  | _ => .ok []

end Binding

namespace Context

/-- The item that a path addresses, however many digits its index has. -/
def itemAt? (context : Context) (path : ItemPath) : Option Context :=
  match context path.list with
  | .list items => items[ItemPath.number path.index]?
  | _ => none

/-- The path leads to a list, with an index that has too many digits to be read. -/
structure HasLongIndex (context : Context) (path : ItemPath) : Prop where
  list : ∃ items, context path.list = .list items
  long : Digits.limit < path.index.length

theorem item?_of_hasLongIndex {context : Context} {path : ItemPath} (h : context.HasLongIndex path)
    : context.item? path = .error (.longIndex path.index.length) := by
  rcases h.list with ⟨items, hitems⟩
  unfold item?
  rw [hitems]
  exact if_pos h.long

theorem item?_of_not_hasLongIndex {context : Context} {path : ItemPath}
    (h : ¬ context.HasLongIndex path)
    : context.item? path = .ok (context.itemAt? path) := by
  unfold item? itemAt?
  cases hlist : context path.list with
  | list items =>
    apply if_neg
    intro hlong
    exact h ⟨⟨items, hlist⟩, hlong⟩
  | _ => rfl

theorem item?_eq_error {context : Context} {path : ItemPath} {failure : Failure}
    (h : context.item? path = .error failure)
    : context.HasLongIndex path ∧ failure = .longIndex path.index.length := by
  by_cases hlong : context.HasLongIndex path
  . rw [item?_of_hasLongIndex hlong] at h
    injection h with h
    exact ⟨hlong, h.symm⟩
  . rw [item?_of_not_hasLongIndex hlong] at h
    contradiction

/-- After so many items, `name` in the first context has become `rest` in the last. -/
inductive Descends : Context → Bytes → Nat → Context → Bytes → Prop where
  | here (context : Context) (name : Bytes) : Descends context name 0 context name
  | item {context item inner : Context} {name rest : Bytes} {path : ItemPath} {steps : Nat}
    (habsent : context name = .absent) (hpath : ItemPath.ofName? name = some path)
    (hitem : context.item? path = .ok (some item)) (hrest : Descends item path.inner steps inner rest)
    : Descends context name (steps + 1) inner rest

/-- The name leads through so many items to something that is bound. -/
def Leads (context : Context) (name : Bytes) (steps : Nat) (binding : Binding) : Prop :=
  ∃ inner rest, context.Descends name steps inner rest ∧ inner rest = binding ∧ binding ≠ .absent

/-- On its way through items the name comes to an index that has too many digits to be read. -/
def MeetsLong (context : Context) (name : Bytes) (digits : Nat) : Prop :=
  ∃ steps inner rest path, context.Descends name steps inner rest
    ∧ inner rest = .absent
    ∧ ItemPath.ofName? rest = some path
    ∧ inner.HasLongIndex path
    ∧ path.index.length = digits

theorem read?_of_bound {context : Context} {name : Bytes} (h : context name ≠ .absent)
    : context.read? name = (context name).text?.map some := by
  rw [read?]
  cases hname : context name with
  | absent => exact absurd hname h
  | _ => rfl

theorem read?_of_no_path {context : Context} {name : Bytes} (habsent : context name = .absent)
    (hpath : ItemPath.ofName? name = none)
    : context.read? name = .ok none := by
  rw [read?, habsent]
  dsimp
  split
  . rfl
  . next found hfound =>
    rw [hpath] at hfound
    contradiction

theorem read?_of_path {context : Context} {name : Bytes} {path : ItemPath}
    (habsent : context name = .absent) (hpath : ItemPath.ofName? name = some path)
    : context.read? name
        =
      match context.item? path with
      | .error failure => .error failure
      | .ok none => .ok none
      | .ok (some item) => (item.read? path.inner).map fun bytes? => some (bytes?.getD []) := by
  rw [read?, habsent]
  dsimp
  split
  . next hnone =>
    rw [hpath] at hnone
    contradiction
  . next found hfound =>
    rw [hpath] at hfound
    injection hfound with hfound
    subst hfound
    rfl

end Context

namespace Stack

theorem read_singleton (context : Context) (name : Bytes)
    : read [context] name = (context.read? name).map (·.getD []) := by
  unfold read
  cases context.read? name with
  | error => rfl
  | ok bytes? => cases bytes? <;> rfl

theorem read_of_descends {context inner : Context} {name rest : Bytes} {steps : Nat}
    (h : context.Descends name steps inner rest)
    : read [context] name = read [inner] rest := by
  induction h with
  | here => rfl
  | @item context item inner name rest path steps habsent hpath hitem _ ih =>
    rw [← ih, read_singleton, read_singleton, Context.read?_of_path habsent hpath, hitem]
    dsimp only
    cases item.read? path.inner <;> rfl

theorem read_of_bound {context : Context} {name : Bytes} (h : context name ≠ .absent)
    : read [context] name = (context name).text? := by
  rw [read_singleton, Context.read?_of_bound h]
  cases (context name).text? <;> rfl

theorem read_of_leads {context : Context} {name : Bytes} {steps : Nat} {binding : Binding}
    (h : context.Leads name steps binding)
    : read [context] name = binding.text? := by
  rcases h with ⟨inner, rest, hdescends, rfl, hbound⟩
  rw [read_of_descends hdescends]
  exact read_of_bound hbound

theorem read_of_end {context : Context} {name : Bytes} (habsent : context name = .absent)
    (hend : ∀ path item, ItemPath.ofName? name = some path → context.item? path ≠ .ok (some item))
    : read [context] name = .ok [] ∨ ∃ digits, read [context] name = .error (.longIndex digits) := by
  rw [read_singleton]
  cases hpath : ItemPath.ofName? name with
  | none =>
    rw [Context.read?_of_no_path habsent hpath]
    exact .inl rfl
  | some path =>
    rw [Context.read?_of_path habsent hpath]
    cases hitem : context.item? path with
    | error failure =>
      rw [(Context.item?_eq_error hitem).2]
      exact .inr ⟨_, rfl⟩
    | ok item? =>
      cases item? with
      | none => exact .inl rfl
      | some item => exact absurd hitem (hend path item hpath)

theorem probe_of_bound {context : Context} {name : Bytes} (h : context name ≠ .absent)
    : probe [context] name = .ok (some (context name)) := by
  unfold probe bound?
  rw [List.findSome?_singleton]
  cases hname : context name with
  | absent => exact absurd hname h
  | _ => rfl

theorem probe_of_item {context item : Context} {name : Bytes} {path : ItemPath}
    (habsent : context name = .absent) (hpath : ItemPath.ofName? name = some path)
    (hitem : context.item? path = .ok (some item))
    : probe [context] name = .ok (some (item path.inner)) := by
  unfold probe bound? itemBinding?
  rw [List.findSome?_singleton, habsent, hpath]
  dsimp [Binding.isAbsent]
  rw [hitem]

/-- A section asks for what is bound no more than one item away. Further on, it asks an item in vain. -/
theorem probe_of_leads {context : Context} {name : Bytes} {steps : Nat} {binding : Binding}
    (h : context.Leads name steps binding)
    : probe [context] name = .ok (some (if steps ≤ 1 then binding else .absent)) := by
  rcases h with ⟨inner, rest, hdescends, rfl, hbound⟩
  cases hdescends with
  | here => exact probe_of_bound hbound
  | item habsent hpath hitem hrest =>
    rw [probe_of_item habsent hpath hitem]
    cases hrest with
    | here => rfl
    | item habsent _ _ _ =>
      rw [habsent, if_neg (by omega)]

theorem leads_of_probe {context : Context} {name : Bytes} {binding : Binding}
    (h : probe [context] name = .ok (some binding)) (hbound : binding ≠ .absent)
    : ∃ steps, context.Leads name steps binding := by
  by_cases habsent : context name = .absent
  . unfold probe bound? at h
    rw [List.findSome?_singleton, habsent] at h
    dsimp [Binding.isAbsent] at h
    split at h
    . simp at h
    . next path hpath =>
      rw [itemBinding?_eq_some_iff] at h
      rcases h with ⟨item, haddresses, rfl⟩
      cases haddresses with
      | here hitem => exact ⟨1, item, path.inner, .item habsent hpath hitem (.here _ _), rfl, hbound⟩
      | outer _ hrest => cases hrest
  . rw [probe_of_bound habsent] at h
    injection h with h
    injection h with h
    exact ⟨0, context, name, .here _ _, h, hbound⟩

end Stack

namespace Context

theorem exists_end (context : Context) (name : Bytes)
    : ∃ steps inner rest, context.Descends name steps inner rest
        ∧ ∀ path item, inner rest = .absent → ItemPath.ofName? rest = some path →
            inner.item? path ≠ .ok (some item) := by
  by_cases hitem : ∃ path item, context name = .absent ∧ ItemPath.ofName? name = some path
      ∧ context.item? path = .ok (some item)
  . rcases hitem with ⟨path, item, habsent, hpath, hitem⟩
    have := ItemPath.inner_length_lt hpath
    rcases exists_end item path.inner with ⟨steps, inner, rest, hdescends, hend⟩
    exact ⟨steps + 1, inner, rest, .item habsent hpath hitem hdescends, hend⟩
  . refine ⟨0, context, name, .here _ _, ?_⟩
    intro path item habsent hpath hfound
    exact hitem ⟨path, item, habsent, hpath, hfound⟩
termination_by name.length

theorem leads_or_prints_nothing (context : Context) (name : Bytes)
    : (∃ steps binding, binding.isPrintable = true ∧ context.Leads name steps binding)
        ∨ Stack.read [context] name = .ok []
        ∨ ∃ digits, Stack.read [context] name = .error (.longIndex digits) := by
  rcases context.exists_end name with ⟨steps, inner, rest, hdescends, hend⟩
  rw [Stack.read_of_descends hdescends]
  cases hbinding : inner rest with
  | absent => exact .inr (Stack.read_of_end hbinding fun path item => hend path item hbinding)
  | «variable» value => exact .inl ⟨steps, _, rfl, inner, rest, hdescends, hbinding, by simp⟩
  | flag b => exact .inl ⟨steps, _, rfl, inner, rest, hdescends, hbinding, by simp⟩
  | list items =>
    right
    left
    rw [Stack.read_of_bound (by simp [hbinding]), hbinding]
    rfl
  | callout effectful callout =>
    right
    left
    rw [Stack.read_of_bound (by simp [hbinding]), hbinding]
    rfl

end Context

namespace Stack

/--
A section asks for what a variable of the same name prints, exactly if no more than one item is on the
way to it. Beyond two items or more the variable is printed all the same, and the section asks in vain.
-/
theorem probe_agrees_iff (context : Context) (name : Bytes)
    : ((∀ binding, binding.isPrintable = true →
          ((∃ steps, context.Leads name steps binding) ↔ probe [context] name = .ok (some binding)))
        ↔
      ∀ steps binding, binding.isPrintable = true → context.Leads name steps binding → steps ≤ 1)
        ∧ (∀ steps binding, context.Leads name steps binding → read [context] name = binding.text?
            ∧ (1 < steps → probe [context] name = .ok (some .absent)))
        ∧ ((∀ steps binding, binding.isPrintable = true → ¬ context.Leads name steps binding) →
            read [context] name = .ok [] ∨ ∃ digits, read [context] name = .error (.longIndex digits)) := by
  have hbound : ∀ binding : Binding, binding.isPrintable = true → binding ≠ .absent := by
    rintro binding h rfl
    contradiction
  refine ⟨⟨?_, ?_⟩, ?_, ?_⟩
  . intro hagrees steps binding hprintable hleads
    have hprobe := (hagrees binding hprintable).mp ⟨steps, hleads⟩
    rw [probe_of_leads hleads] at hprobe
    split at hprobe
    . next hnear => exact hnear
    . injection hprobe with hprobe
      injection hprobe with hprobe
      exact absurd hprobe.symm (hbound binding hprintable)
  . intro hnear binding hprintable
    constructor
    . rintro ⟨steps, hleads⟩
      rw [probe_of_leads hleads, if_pos (hnear steps binding hprintable hleads)]
    . intro hprobe
      exact leads_of_probe hprobe (hbound binding hprintable)
  . intro steps binding hleads
    refine ⟨read_of_leads hleads, ?_⟩
    intro hfar
    rw [probe_of_leads hleads, if_neg (by omega)]
  . intro hnone
    rcases context.leads_or_prints_nothing name with ⟨steps, binding, hprintable, hleads⟩ | hnothing
    . exact absurd hleads (hnone steps binding hprintable)
    . exact hnothing

example
    : let context := Context.ofData
        [(.text "a", .list [.record .mapping [(.text "b", .list [.int 1, .int 2])]])]
      let name := Bytes.ofAscii "a.0.b.1"
      (read [context] name).toOption = some (Bytes.ofAscii "2")
        ∧ (probe [context] name).toOption.map (·.map Binding.isAbsent) = some (some true) := by
  decide +kernel

end Stack

end Mustache
