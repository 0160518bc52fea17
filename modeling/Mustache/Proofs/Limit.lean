import Mustache.Proofs.Descent

/-!
This module contains lookups as they are without a limit on digits: every name has an answer, and an
index that is no position of its list is a miss like any other. The lookups of a render give the same
answers, unless they come to an index that has too many digits to be read.
-/

namespace Mustache

namespace Context

/-- The bytes that a context has for a name, however many digits the indexes in it have. -/
def shown? (context : Context) (name : Bytes) : Option Bytes :=
  match context name with
  | .variable value => some value.render
  | .flag b => some (Utf8.encode (Value.boolText b))
  | .absent =>
    match _h : ItemPath.ofName? name with
    | none => none
    | some path => (context.itemAt? path).map fun item => (shown? item path.inner).getD []
  | _ => some []
termination_by name.length
decreasing_by
  exact ItemPath.inner_length_lt _h

/-- The context knows neither the name nor, as the name is a path, an item. -/
structure Misses (context : Context) (name : Bytes) : Prop where
  unbound : context name = .absent
  short : ∀ path, ItemPath.ofName? name = some path → ¬ context.HasLongIndex path
  unaddressed : ∀ path, ItemPath.ofName? name = some path → context.itemAt? path = none

section

variable {context item : Context} {name : Bytes} {path : ItemPath} {digits : Nat}

theorem meetsLong_of_hasLongIndex (habsent : context name = .absent)
    (hpath : ItemPath.ofName? name = some path) (hlong : context.HasLongIndex path)
    : context.MeetsLong name path.index.length :=
  ⟨0, context, name, path, .here _ _, habsent, hpath, hlong, rfl⟩

theorem MeetsLong.of_item (habsent : context name = .absent) (hpath : ItemPath.ofName? name = some path)
    (hitem : context.item? path = .ok (some item)) (h : item.MeetsLong path.inner digits)
    : context.MeetsLong name digits := by
  rcases h with ⟨steps, inner, rest, last, hdescends, hlast⟩
  exact ⟨steps + 1, inner, rest, last, .item habsent hpath hitem hdescends, hlast⟩

theorem shown?_of_no_path (habsent : context name = .absent) (hpath : ItemPath.ofName? name = none)
    : context.shown? name = none := by
  rw [shown?, habsent]
  dsimp
  split
  . rfl
  . next found hfound =>
    rw [hpath] at hfound
    contradiction

theorem shown?_of_path (habsent : context name = .absent) (hpath : ItemPath.ofName? name = some path)
    : context.shown? name
        =
      (context.itemAt? path).map fun item => (item.shown? path.inner).getD [] := by
  rw [shown?, habsent]
  dsimp
  split
  . next hnone =>
    rw [hpath] at hnone
    contradiction
  . next found hfound =>
    rw [hpath] at hfound
    injection hfound with hfound
    subst hfound
    rfl

theorem read?_of_meetsLong (h : context.MeetsLong name digits)
    : context.read? name = .error (.longIndex digits) := by
  rcases h with ⟨steps, inner, rest, last, hdescends, habsent, hlast, hlong, rfl⟩
  induction hdescends with
  | here => rw [read?_of_path habsent hlast, item?_of_hasLongIndex hlong]
  | item habsent' hpath hitem _ ih =>
    rw [read?_of_path habsent' hpath, hitem]
    dsimp only
    rw [ih habsent hlast hlong]
    rfl

theorem read?_eq_shown? {context : Context} {name : Bytes}
    (htext : ∀ value, context.Knows (.variable value) → value.hasText = true)
    (hshort : ∀ digits, ¬ context.MeetsLong name digits)
    : context.read? name = .ok (context.shown? name) := by
  cases hname : context name with
  | absent =>
    cases hpath : ItemPath.ofName? name with
    | none => rw [read?_of_no_path hname hpath, shown?_of_no_path hname hpath]
    | some path =>
      have hitem := item?_of_not_hasLongIndex
        (fun hlong => hshort _ (meetsLong_of_hasLongIndex hname hpath hlong))
      rw [read?_of_path hname hpath, shown?_of_path hname hpath, hitem]
      cases hfound : context.itemAt? path with
      | none => rfl
      | some item =>
        rw [hfound] at hitem
        have := ItemPath.inner_length_lt hpath
        have ih : item.read? path.inner = .ok (item.shown? path.inner) := by
          apply read?_eq_shown?
          . intro value hvalue
            exact htext value (hvalue.of_item? hitem)
          . intro digits hlong
            exact hshort digits (hlong.of_item hname hpath hitem)
        dsimp only
        rw [ih]
        rfl
  | «variable» value =>
    have hvalue := htext value (hname ▸ Knows.name context name)
    rw [read?, shown?, hname]
    simp [Value.render?, hvalue, Except.map]
  | flag => rw [read?, shown?, hname]
  | list => rw [read?, shown?, hname]
  | callout => rw [read?, shown?, hname]
termination_by name.length

theorem misses_of_shown?_eq_none (hshort : ∀ digits, ¬ context.MeetsLong name digits)
    (h : context.shown? name = none)
    : context.Misses name := by
  have hname : context name = .absent := by
    rw [shown?] at h
    split at h
    . contradiction
    . contradiction
    . next habsent => exact habsent
    . contradiction
  refine ⟨hname, ?_, ?_⟩
  . intro path hpath hlong
    exact hshort _ (meetsLong_of_hasLongIndex hname hpath hlong)
  . intro path hpath
    rw [shown?_of_path hname hpath, Option.map_eq_none_iff] at h
    exact h

theorem Misses.read?_eq_none (h : context.Misses name) : context.read? name = .ok none := by
  cases hpath : ItemPath.ofName? name with
  | none => exact read?_of_no_path h.unbound hpath
  | some path =>
    rw [read?_of_path h.unbound hpath, item?_of_not_hasLongIndex (h.short path hpath),
      h.unaddressed path hpath]

end

end Context

namespace Stack

/-- The bytes that a variable stands for, however many digits the indexes in its name have. -/
def shown (stack : Stack) (name : Bytes) : Bytes :=
  (stack.findSome? (Context.shown? · name)).getD []

/-- What a section asks for, however many digits the index in its name has. -/
def tested? (stack : Stack) (name : Bytes) : Option Binding :=
  match stack.bound? name, ItemPath.ofName? name with
  | some binding, _ => some binding
  | none, some path => stack.findSome? fun context => (context.itemAt? path).map (· path.inner)
  | none, none => none

/-- The first context that does not miss the name comes to an index that has too many digits. -/
inductive ReadsLong (name : Bytes) (digits : Nat) : Stack → Prop where
  | here {context : Context} {rest : Stack} (h : context.MeetsLong name digits)
    : ReadsLong name digits (context :: rest)
  | outer {context : Context} {rest : Stack} (hmiss : context.Misses name)
    (hrest : ReadsLong name digits rest)
    : ReadsLong name digits (context :: rest)

/-- The path has an index of too many digits, and leads to a list before it leads to an item. -/
inductive AddressesLong (path : ItemPath) : Stack → Prop where
  | here {context : Context} {rest : Stack} (h : context.HasLongIndex path)
    : AddressesLong path (context :: rest)
  | outer {context : Context} {rest : Stack} (hshort : ¬ context.HasLongIndex path)
    (hmiss : context.itemAt? path = none) (hrest : AddressesLong path rest)
    : AddressesLong path (context :: rest)

/-- No context knows the name, and as a path it has an index of too many digits into a list. -/
def ProbesLong (stack : Stack) (name : Bytes) (digits : Nat) : Prop :=
  (∀ context ∈ stack, context name = .absent)
    ∧ ∃ path, ItemPath.ofName? name = some path ∧ stack.AddressesLong path ∧ path.index.length = digits

section

variable {stack : Stack} {name : Bytes} {path : ItemPath} {digits : Nat}

theorem read_of_readsLong (h : stack.ReadsLong name digits)
    : stack.read name = .error (.longIndex digits) := by
  induction h with
  | here hlong =>
    unfold read
    rw [Context.read?_of_meetsLong hlong]
  | outer hmiss _ ih =>
    unfold read
    rw [hmiss.read?_eq_none]
    exact ih

theorem read_eq_shown
    (htext : ∀ value, stack.Knows (.variable value) → value.hasText = true)
    (hshort : ∀ digits, ¬ stack.ReadsLong name digits)
    : stack.read name = .ok (stack.shown name) := by
  induction stack with
  | nil => rfl
  | cons context rest ih =>
    have hmeets : ∀ digits, ¬ context.MeetsLong name digits :=
      fun digits hlong => hshort digits (.here hlong)
    have hread : context.read? name = .ok (context.shown? name) := by
      apply Context.read?_eq_shown? _ hmeets
      intro value hvalue
      exact htext value ⟨context, List.mem_cons_self, hvalue⟩
    unfold read shown
    rw [hread, List.findSome?_cons]
    cases hshown : context.shown? name with
    | some bytes => rfl
    | none =>
      apply ih
      . rintro value ⟨outer, houter, hvalue⟩
        exact htext value ⟨outer, List.mem_cons_of_mem _ houter, hvalue⟩
      -- What shows nothing and meets no long index is a miss, so one further out would be come to.
      . intro digits hlong
        exact hshort digits (.outer (Context.misses_of_shown?_eq_none hmeets hshown) hlong)

theorem itemBinding?_of_addressesLong (h : stack.AddressesLong path)
    : stack.itemBinding? path = .error (.longIndex path.index.length) := by
  induction h with
  | here hlong =>
    unfold itemBinding?
    rw [Context.item?_of_hasLongIndex hlong]
  | outer hshort hmiss _ ih =>
    unfold itemBinding?
    rw [Context.item?_of_not_hasLongIndex hshort, hmiss]
    exact ih

theorem itemBinding?_eq (hshort : ¬ stack.AddressesLong path)
    : stack.itemBinding? path
        =
      .ok (stack.findSome? fun context => (context.itemAt? path).map (· path.inner)) := by
  induction stack with
  | nil => rfl
  | cons context rest ih =>
    have hcontext : ¬ context.HasLongIndex path := fun hlong => hshort (.here hlong)
    unfold itemBinding?
    rw [Context.item?_of_not_hasLongIndex hcontext, List.findSome?_cons]
    cases hitem : context.itemAt? path with
    | some item => rfl
    | none =>
      apply ih
      intro hlong
      exact hshort (.outer hcontext hitem hlong)

theorem probe_of_probesLong (h : stack.ProbesLong name digits)
    : stack.probe name = .error (.longIndex digits) := by
  rcases h with ⟨hunbound, path, hpath, hlong, rfl⟩
  unfold probe
  rw [(bound?_eq_none_iff stack name).mpr hunbound, hpath]
  exact itemBinding?_of_addressesLong hlong

theorem probe_eq_tested? (hshort : ∀ digits, ¬ stack.ProbesLong name digits)
    : stack.probe name = .ok (stack.tested? name) := by
  unfold probe tested?
  cases hbound : stack.bound? name with
  | some binding => rfl
  | none =>
    cases hpath : ItemPath.ofName? name with
    | none => rfl
    | some path =>
      apply itemBinding?_eq
      intro hlong
      exact hshort _ ⟨(bound?_eq_none_iff stack name).mp hbound, path, hpath, hlong, rfl⟩

end

/--
Where all variables have a text, a name is looked up as if there were no limit on digits, exactly if no
index that has too many of them is come to: an index that is no position is a miss, and one that is
leads to the item. Where one is come to, the lookup fails, though the index may well be a position.
-/
theorem lookups_unlimited_iff (stack : Stack) (name : Bytes)
    (htext : ∀ value, stack.Knows (.variable value) → value.hasText = true)
    : (stack.read name = .ok (stack.shown name) ↔ ∀ digits, ¬ stack.ReadsLong name digits)
        ∧ (stack.probe name = .ok (stack.tested? name) ↔ ∀ digits, ¬ stack.ProbesLong name digits)
        ∧ (∀ digits, stack.ReadsLong name digits → stack.read name = .error (.longIndex digits))
        ∧ ∀ digits, stack.ProbesLong name digits → stack.probe name = .error (.longIndex digits) := by
  refine ⟨⟨?_, read_eq_shown htext⟩, ⟨?_, probe_eq_tested?⟩, ?_, ?_⟩
  . intro hread digits hlong
    rw [read_of_readsLong hlong] at hread
    contradiction
  . intro hprobe digits hlong
    rw [probe_of_probesLong hlong] at hprobe
    contradiction
  . intro digits
    exact read_of_readsLong
  . intro digits
    exact probe_of_probesLong

theorem lookups_unlimited_iff_leading_zeros
    : let item : Context := fun name =>
        if name = Context.self then .variable (.text "x") else .absent
      let context : Context := fun name =>
        if name = Bytes.ofAscii "a" then .list [Context.empty, item] else .absent
      let stack : Stack := [Context.empty, context]
      let name := Bytes.ofAscii "a.0001"
      (∀ value, stack.Knows (.variable value) → value.hasText = true)
        ∧ (stack.read name = .ok (stack.shown name) ↔ ∀ digits, ¬ stack.ReadsLong name digits)
        ∧ stack.shown name = Bytes.ofAscii "x"
        ∧ (stack.tested? name).map Binding.isAbsent = some false := by
  intro item context stack name
  let Known (known : Context) : Prop := known = Context.empty ∨ known = item ∨ known = context
  let HasText (binding : Binding) : Prop := ∀ value, binding = .variable value → value.hasText = true
  have hbinding : ∀ known, Known known → ∀ name, HasText (known name) := by
    rintro known (rfl | rfl | rfl) name value hvalue
    . contradiction
    . dsimp [item] at hvalue
      split at hvalue
      . injection hvalue with hvalue
        rw [← hvalue]
        rfl
      . contradiction
    . dsimp [context] at hvalue
      split at hvalue <;> contradiction
  have hitem : ∀ known, Known known → ∀ name items, known name = .list items →
      ∀ inner ∈ items, Known inner := by
    rintro known (rfl | rfl | rfl) name items hitems inner hinner
    . contradiction
    . dsimp [item] at hitems
      split at hitems <;> contradiction
    . dsimp [context] at hitems
      split at hitems
      . injection hitems with hitems
        rw [← hitems] at hinner
        simp only [List.mem_cons, List.not_mem_nil, or_false] at hinner
        rcases hinner with rfl | rfl
        . exact .inl rfl
        . exact .inr (.inl rfl)
      . contradiction
  have htext : ∀ value, stack.Knows (.variable value) → value.hasText = true := by
    rintro value ⟨known, hmem, hknows⟩
    simp only [stack, List.mem_cons, List.not_mem_nil, or_false] at hmem
    have hknown : Known known := by
      rcases hmem with rfl | rfl
      . exact .inl rfl
      . exact .inr (.inr rfl)
    exact hknows.within hbinding hitem hknown value rfl
  exact ⟨htext, (lookups_unlimited_iff stack name htext).1, by decide +kernel, by decide +kernel⟩

example
    : let item : Context := fun _ => .flag true
      let context : Context := fun name =>
        if name = Bytes.ofAscii "a" then .list [item] else .absent
      let name := Bytes.ofAscii "a." ++ List.replicate 4301 0x30
      Stack.shown [context] name = Bytes.ofAscii "True"
        ∧ (Stack.read [context] name).toOption = none := by
  decide +kernel

end Stack

end Mustache
