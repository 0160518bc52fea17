import Mustache.Proofs.Section

/-!
This module contains the bindings that a render can come across: those of the contexts it starts with,
and of the items of their lists. Whatever a lookup answers is made of them.
-/

namespace Mustache

namespace Context

/-- The bindings of a context and, at every depth, of the items of its lists. -/
inductive Knows : Context → Binding → Prop where
  | name (context : Context) (name : Bytes) : Knows context (context name)
  | item {context item : Context} {items : List Context} {binding : Binding}
    (hitems : Knows context (.list items)) (hitem : item ∈ items) (hbinding : Knows item binding)
    : Knows context binding

theorem Knows.exists_name {context : Context} {binding : Binding} (h : context.Knows binding)
    (hlist : ∀ name items, context name ≠ .list items)
    : ∃ name, context name = binding := by
  induction h with
  | name context name => exact ⟨name, rfl⟩
  | item _ _ _ ih =>
    rcases ih hlist with ⟨name, hname⟩
    exact absurd hname (hlist name _)

/-- What holds of all bindings of some contexts, which have only each other as items, is all they know. -/
theorem Knows.within {Known : Context → Prop} {P : Binding → Prop} {context : Context}
    {binding : Binding}
    (hbinding : ∀ context, Known context → ∀ name, P (context name))
    (hitem : ∀ context, Known context → ∀ name items, context name = .list items →
      ∀ item ∈ items, Known item)
    (h : context.Knows binding) (hcontext : Known context)
    : P binding := by
  have : P binding ∧ ∀ items, binding = .list items → ∀ item ∈ items, Known item := by
    induction h with
    | name context name => exact ⟨hbinding context hcontext name, hitem context hcontext name⟩
    | item _ hmem _ ih ih' => exact ih' ((ih hcontext).2 _ rfl _ hmem)
  exact this.1

theorem item?_eq_some {context item : Context} {path : ItemPath}
    (h : context.item? path = .ok (some item))
    : ∃ items, context path.list = .list items ∧ item ∈ items := by
  unfold item? at h
  split at h
  . next items hitems =>
    split at h
    . contradiction
    . rw [Except.ok.injEq] at h
      exact ⟨items, hitems, List.mem_of_getElem? h⟩
  . simp at h

theorem Knows.of_item? {context item : Context} {path : ItemPath} {binding : Binding}
    (h : context.item? path = .ok (some item)) (hbinding : item.Knows binding)
    : context.Knows binding := by
  rcases item?_eq_some h with ⟨items, hitems, hitem⟩
  apply Knows.item _ hitem hbinding
  rw [← hitems]
  apply Knows.name

/-- The bytes are those of a variable or of a flag that the context knows, or there are none. -/
inductive Has (context : Context) : Bytes → Prop where
  | nothing : Has context []
  | flag (b : Bool) : Has context (Utf8.encode (Value.boolText b))
  | value {value : Value} {bytes : Bytes} (hknown : context.Knows (.variable value))
    (hrender : value.render? = .ok bytes)
    : Has context bytes

theorem Has.of_item? {context item : Context} {path : ItemPath} {bytes : Bytes}
    (h : context.item? path = .ok (some item)) (hbytes : item.Has bytes)
    : context.Has bytes := by
  cases hbytes with
  | nothing => exact .nothing
  | flag b => exact .flag b
  | value hknown hrender => exact .value (hknown.of_item? h) hrender

theorem has_of_read? {context : Context} {name bytes : Bytes}
    (h : context.read? name = .ok (some bytes))
    : context.Has bytes := by
  have hname := Knows.name context name
  rw [read?] at h
  split at h
  . next value hbinding =>
    rw [hbinding] at hname
    cases hrender : value.render? with
    | error failure =>
      rw [hrender] at h
      contradiction
    | ok rendered =>
      rw [hrender] at h
      injection h with h
      injection h with h
      rw [← h]
      exact .value hname hrender
  . next b _ =>
    injection h with h
    injection h with h
    rw [← h]
    exact .flag b
  . split at h
    . simp at h
    . next path hpath =>
      have := ItemPath.inner_length_lt hpath
      split at h
      . contradiction
      . simp at h
      . next item hitem =>
        cases hread : item.read? path.inner with
        | error failure =>
          rw [hread] at h
          contradiction
        | ok bytes? =>
          rw [hread] at h
          injection h with h
          injection h with h
          rw [← h]
          cases bytes? with
          | none => exact .nothing
          | some bytes => exact (has_of_read? hread).of_item? hitem
  . injection h with h
    injection h with h
    rw [← h]
    exact .nothing
termination_by name.length

end Context

namespace Stack

def Knows (stack : Stack) (binding : Binding) : Prop :=
  ∃ context ∈ stack, Context.Knows context binding

theorem read_eq_ok {stack : Stack} {name bytes : Bytes} (h : stack.read name = .ok bytes)
    : bytes = [] ∨ ∃ context ∈ stack, Context.Has context bytes := by
  induction stack with
  | nil =>
    injection h with h
    exact .inl h.symm
  | cons context rest ih =>
    unfold read at h
    split at h
    . contradiction
    . next found hread =>
      injection h with h
      rw [← h]
      exact .inr ⟨context, List.mem_cons_self, Context.has_of_read? hread⟩
    . rcases ih h with hnil | ⟨context', hmem, hhas⟩
      . exact .inl hnil
      . exact .inr ⟨context', List.mem_cons_of_mem _ hmem, hhas⟩

theorem Addresses.knows {path : ItemPath} {stack : Stack} {item : Context} {binding : Binding}
    (h : Addresses path stack item) (hbinding : item.Knows binding)
    : stack.Knows binding := by
  induction h with
  | here hitem => exact ⟨_, List.mem_cons_self, hbinding.of_item? hitem⟩
  | outer _ _ ih =>
    rcases ih hbinding with ⟨context, hmem, hknows⟩
    exact ⟨context, List.mem_cons_of_mem _ hmem, hknows⟩

theorem knows_of_probe {stack : Stack} {name : Bytes} {binding : Binding}
    (h : stack.probe name = .ok (some binding))
    : stack.Knows binding := by
  unfold probe at h
  split at h
  . next found hbound =>
    injection h with h
    injection h with h
    subst h
    unfold bound? at hbound
    rw [List.findSome?_eq_some_iff] at hbound
    rcases hbound with ⟨before, context, after, rfl, hcontext, _⟩
    dsimp at hcontext
    split at hcontext
    . contradiction
    . injection hcontext with hcontext
      rw [← hcontext]
      exact ⟨context, by simp, .name context name⟩
  . split at h
    . simp at h
    . next path _ =>
      rw [itemBinding?_eq_some_iff] at h
      rcases h with ⟨item, haddresses, rfl⟩
      exact haddresses.knows (.name item path.inner)

theorem knows_of_cons {stack : Stack} {items : List Context} {item : Context} {binding : Binding}
    (hitems : stack.Knows (.list items)) (hitem : item ∈ items)
    (h : Stack.Knows (item :: stack) binding)
    : stack.Knows binding := by
  rcases h with ⟨context, hmem, hknows⟩
  rw [List.mem_cons] at hmem
  cases hmem with
  | inl heq =>
    rw [heq] at hknows
    rcases hitems with ⟨outer, houter, hlist⟩
    exact ⟨outer, houter, hlist.item hitem hknows⟩
  | inr hmem => exact ⟨context, hmem, hknows⟩

end Stack

namespace Plan

theorem ofSection_eq_ok {stack : Stack} {inverted : Bool} {name : Bytes} {plan : Plan}
    (h : ofSection stack inverted name = .ok plan)
    : ∃ binding?, stack.probe name = .ok binding?
        ∧ (if inverted then Plan.inverted stack binding? else positive stack binding?) = .ok plan := by
  cases hprobe : stack.probe name with
  | error failure =>
    rw [ofSection_of_error inverted hprobe] at h
    contradiction
  | ok binding? =>
    rw [ofSection_of_ok inverted hprobe] at h
    refine ⟨binding?, rfl, ?_⟩
    generalize (if inverted then Plan.inverted stack binding? else positive stack binding?) = plan? at h
    cases plan? with
    | error => contradiction
    | ok found =>
      injection h with h
      rw [h]

/-- What becomes of a body depends on the binding of its name alone. -/
theorem of_probe {stack : Stack} {inverted : Bool} {binding? : Option Binding} {plan : Plan}
    (h : (if inverted then Plan.inverted stack binding? else positive stack binding?) = .ok plan)
    : (∃ effectful callout, binding? = some (.callout effectful callout)
          ∧ plan = .call effectful callout)
        ∨ (∃ items, binding? = some (.list items) ∧ plan = .scopes (items.map (· :: stack)))
        ∨ ∃ condition, plan = once stack condition := by
  have hmap : ∀ {value : Value} {condition : Bool → Bool},
      value.isEmpty.map (fun empty => once stack (condition empty)) = .ok plan →
        ∃ condition, plan = once stack condition := by
    intro value condition hvalue
    cases hempty : value.isEmpty with
    | error => rw [hempty] at hvalue; contradiction
    | ok empty =>
      rw [hempty] at hvalue
      injection hvalue with hvalue
      exact ⟨_, hvalue.symm⟩
  cases inverted with
  | true =>
    rw [if_pos rfl] at h
    right
    right
    unfold Plan.inverted at h
    split at h
    . injection h with h
      exact ⟨_, h.symm⟩
    . exact hmap h
    . injection h with h
      exact ⟨_, h.symm⟩
    . injection h with h
      exact ⟨false, h.symm⟩
    . injection h with h
      exact ⟨false, h.symm⟩
    . injection h with h
      exact ⟨true, h.symm⟩
  | false =>
    rw [if_neg (by decide)] at h
    unfold positive at h
    split at h
    . next items =>
      injection h with h
      exact .inr (.inl ⟨items, rfl, h.symm⟩)
    . exact .inr (.inr (hmap h))
    . injection h with h
      exact .inr (.inr ⟨_, h.symm⟩)
    . next effectful callout =>
      injection h with h
      exact .inl ⟨effectful, callout, rfl, h.symm⟩
    . injection h with h
      exact .inr (.inr ⟨false, h.symm⟩)
    . injection h with h
      exact .inr (.inr ⟨false, h.symm⟩)

theorem knows_of_call {stack : Stack} {inverted : Bool} {name : Bytes} {effectful : Bool}
    {callout : Callout} (h : ofSection stack inverted name = .ok (.call effectful callout))
    : stack.Knows (.callout effectful callout) := by
  rcases ofSection_eq_ok h with ⟨binding?, hprobe, hplan⟩
  rcases of_probe hplan with ⟨_, _, rfl, hcall⟩ | ⟨items, _, hscopes⟩ | ⟨condition, hscopes⟩
  . injection hcall with heffectful hcallout
    rw [heffectful, hcallout]
    exact Stack.knows_of_probe hprobe
  . contradiction
  . contradiction

theorem knows_of_scopes {stack inner : Stack} {inverted : Bool} {name : Bytes} {inners : List Stack}
    {binding : Binding} (h : ofSection stack inverted name = .ok (.scopes inners))
    (hinner : inner ∈ inners) (hbinding : inner.Knows binding)
    : stack.Knows binding := by
  rcases ofSection_eq_ok h with ⟨binding?, hprobe, hplan⟩
  rcases of_probe hplan with ⟨_, _, _, hcall⟩ | ⟨items, rfl, hscopes⟩ | ⟨condition, hscopes⟩
  . contradiction
  . injection hscopes with hscopes
    rw [hscopes, List.mem_map] at hinner
    rcases hinner with ⟨item, hitem, rfl⟩
    exact Stack.knows_of_cons (Stack.knows_of_probe hprobe) hitem hbinding
  . unfold once at hscopes
    injection hscopes with hscopes
    rw [hscopes] at hinner
    split at hinner
    . rw [List.mem_singleton] at hinner
      rwa [← hinner]
    . contradiction

end Plan

end Mustache
