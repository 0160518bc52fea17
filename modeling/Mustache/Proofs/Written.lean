import Mathlib.Data.List.Forall2
import Mustache.Proofs.Invariant
import Mustache.Proofs.Names

/-!
This module contains the independence of renders from data that nobody asks for. A lookup asks each
context for the name as it is written and for the list that it may begin with. Both are written in the
template or in a partial, and what contexts have for other names plays no part.
-/

namespace Mustache

namespace ItemPath

theorem list_prefix_of_ofName? {name : Bytes} {path : ItemPath} (h : ofName? name = some path)
    : path.list <+: name := by
  unfold ofName? at h
  split at h
  . contradiction
  . next list rest hcut =>
    have hname : list <+: name := by
      rw [cutAt?_eq_some hcut]
      apply List.prefix_append
    dsimp only at h
    split at h
    . contradiction
    . split at h
      . injection h with h
        rwa [← h]
      . split at h
        . injection h with h
          rwa [← h]
        . contradiction

end ItemPath

namespace Context

/-- The names that a context is asked for when `name` is looked up in it. -/
def queries (name : Bytes) : List Bytes :=
  match ItemPath.ofName? name with
  | none => [name]
  | some path => [name, path.list]

theorem mem_queries (name : Bytes) : name ∈ queries name := by
  unfold queries
  split <;> simp

theorem list_mem_queries {name : Bytes} {path : ItemPath} (h : ItemPath.ofName? name = some path)
    : path.list ∈ queries name := by
  unfold queries
  rw [h]
  simp

theorem infix_of_mem_queries {name query : Bytes} (h : query ∈ queries name) : query <:+: name := by
  unfold queries at h
  split at h
  . rcases List.mem_singleton.mp h with rfl
    apply List.infix_refl
  . next path hpath =>
    simp only [List.mem_cons, List.not_mem_nil, or_false] at h
    rcases h with rfl | rfl
    . apply List.infix_refl
    . exact (ItemPath.list_prefix_of_ofName? hpath).isInfix

/-- Two contexts have the same for all of some names. -/
def AgreeOn (Names : Bytes → Prop) (context context' : Context) : Prop :=
  ∀ name, Names name → context name = context' name

section

variable {Names : Bytes → Prop} {context context' : Context} {name : Bytes}

theorem AgreeOn.item?_eq (h : AgreeOn Names context context') {path : ItemPath}
    (hlist : Names path.list)
    : context.item? path = context'.item? path := by
  unfold item?
  rw [h _ hlist]

theorem AgreeOn.read?_eq (h : AgreeOn Names context context')
    (hqueries : ∀ query ∈ queries name, Names query)
    : context.read? name = context'.read? name := by
  rw [read?, read?, h name (hqueries _ (mem_queries name))]
  split
  . rfl
  . rfl
  . split
    . rfl
    . next path hpath => rw [h.item?_eq (hqueries _ (list_mem_queries hpath))]
  . rfl

end

end Context

namespace Stack

def AgreeOn (Names : Bytes → Prop) (stack stack' : Stack) : Prop :=
  List.Forall₂ (Context.AgreeOn Names) stack stack'

namespace AgreeOn

variable {Names : Bytes → Prop} {stack stack' : Stack} {name : Bytes}

theorem read_eq (h : AgreeOn Names stack stack')
    (hqueries : ∀ query ∈ Context.queries name, Names query)
    : stack.read name = stack'.read name := by
  induction h with
  | nil => rfl
  | cons hcontext _ ih =>
    unfold read
    rw [hcontext.read?_eq hqueries, ih]

theorem bound?_eq (h : AgreeOn Names stack stack') (hname : Names name)
    : stack.bound? name = stack'.bound? name := by
  unfold bound?
  induction h with
  | nil => rfl
  | cons hcontext _ ih => rw [List.findSome?_cons, List.findSome?_cons, hcontext name hname, ih]

theorem itemBinding?_eq (h : AgreeOn Names stack stack') {path : ItemPath} (hlist : Names path.list)
    : stack.itemBinding? path = stack'.itemBinding? path := by
  induction h with
  | nil => rfl
  | cons hcontext _ ih =>
    unfold itemBinding?
    rw [hcontext.item?_eq hlist, ih]

theorem probe_eq (h : AgreeOn Names stack stack')
    (hqueries : ∀ query ∈ Context.queries name, Names query)
    : stack.probe name = stack'.probe name := by
  unfold probe
  rw [h.bound?_eq (hqueries _ (Context.mem_queries name))]
  split
  . rfl
  . split
    . rfl
    . next path hpath => exact h.itemBinding?_eq (hqueries _ (Context.list_mem_queries hpath))

theorem append (pushed : Stack) (h : AgreeOn Names stack stack')
    : AgreeOn Names (pushed ++ stack) (pushed ++ stack') := by
  induction pushed with
  | nil => exact h
  | cons context pushed ih => exact List.Forall₂.cons (fun _ _ => rfl) ih

end AgreeOn

end Stack

namespace Plan

/-- The plan with another stack below all of its own. -/
def onto (stack : Stack) (plan : Plan) : Plan :=
  match plan with
  | scopes inners => .scopes (inners.map (· ++ stack))
  | call effectful callout => .call effectful callout

theorem once_onto (stack : Stack) (condition : Bool)
    : (once [] condition).onto stack = once stack condition := by
  cases condition <;> rfl

theorem positive_onto (stack : Stack) (binding? : Option Binding)
    : positive stack binding? = (positive [] binding?).map (onto stack) := by
  unfold positive
  split
  . simp [Except.map, onto]
  . next value =>
    cases value.isEmpty with
    | error => rfl
    | ok empty => exact congrArg Except.ok (once_onto stack !empty).symm
  . next b => exact congrArg Except.ok (once_onto stack b).symm
  . rfl
  . rfl
  . rfl

theorem inverted_onto (stack : Stack) (binding? : Option Binding)
    : inverted stack binding? = (inverted [] binding?).map (onto stack) := by
  unfold inverted
  split
  . next items => exact congrArg Except.ok (once_onto stack items.isEmpty).symm
  . next value =>
    cases value.isEmpty with
    | error => rfl
    | ok empty => exact congrArg Except.ok (once_onto stack empty).symm
  . next b => exact congrArg Except.ok (once_onto stack !b).symm
  . rfl
  . rfl
  . exact congrArg Except.ok (once_onto stack true).symm

end Plan

namespace Engine

open Run

variable {Runs : Run → Run → Prop} {Names : Bytes → Prop} {stack stack' : Stack} {name : Bytes}

theorem enter_related_of_probe {inverted : Bool} {body : Bytes} {inside inside' : Stack → Run}
    (cong : Congruence Runs) (hprobe : stack.probe name = stack'.probe name)
    (hcall : ∀ effectful callout,
      Runs (call effectful callout name body) (call effectful callout name body))
    (hinside : ∀ pushed, Runs (inside (pushed ++ stack)) (inside' (pushed ++ stack')))
    : Runs (enter stack inverted name body inside) (enter stack' inverted name body inside') := by
  -- The stack plays no part in what a section does but stands below all contexts that it pushes.
  have hplan : ∀ stack : Stack, ∀ binding? : Option Binding,
      (if inverted then Plan.inverted stack binding? else Plan.positive stack binding?)
        =
      (if inverted then Plan.inverted [] binding? else Plan.positive [] binding?).map
        (Plan.onto stack) := by
    intro stack binding?
    split
    . apply Plan.inverted_onto
    . apply Plan.positive_onto
  unfold enter Plan.ofSection
  rw [hprobe]
  cases stack'.probe name with
  | error failure => exact cong.fail failure
  | ok binding? =>
    dsimp only
    rw [hplan stack, hplan stack']
    cases (if inverted then Plan.inverted [] binding? else Plan.positive [] binding?) with
    | error error => exact cong.fail _
    | ok plan =>
      cases plan with
      | call effectful callout => exact hcall effectful callout
      | scopes inners =>
        change Runs (Run.each (inners.map (· ++ stack)) inside)
          (Run.each (inners.map (· ++ stack')) inside')
        rw [each_map, each_map]
        apply cong.each
        intro pushed _
        exact hinside pushed

theorem written_of_mem_queries {resolver : Resolver} {template text name query : Bytes}
    {delims : Delimiters} {pos : Nat} {step : Step} (htext : resolver.Written template text)
    (hstep : Step.next? text delims pos = some step) (hname : step.action.name? = some name)
    (hquery : query ∈ Context.queries name)
    : resolver.Written template query :=
  (htext.of_part (Step.name_infix_of_next? hstep hname)).of_part (Context.infix_of_mem_queries hquery)

theorem written_simulation (engine : Engine) (template : Bytes)
    : Simulation engine engine (fun text _ _ => engine.resolver.Written template text)
        (Stack.AgreeOn (engine.resolver.Written template)) Eq where
  toCongruence := Congruence.equality
  tail _ _ := rfl
  literal _ _ := rfl
  resume htext _ := htext
  turn {_ _ _ step stack stack' inside inside' content content'} htext hstep hstack hinside hcontent := by
    unfold turn
    apply Congruence.equality.andThen rfl
    cases haction : step.action with
    | «variable» escaped name =>
      have hname : step.action.name? = some name := by rw [haction]; rfl
      unfold perform printVariable
      dsimp only
      rw [hstack.read_eq fun _ => written_of_mem_queries htext hstep hname]
    | enter inverted name body =>
      have hname : step.action.name? = some name := by rw [haction]; rfl
      have hprobe := hstack.probe_eq fun _ => written_of_mem_queries htext hstep hname
      apply enter_related_of_probe Congruence.equality hprobe
      . intro _ _
        rfl
      . intro pushed
        apply hinside _ _ _ _ _ haction
        . exact hstack.append pushed
        . exact htext.of_part (Step.infix_of_next? hstep haction)
    | insert name =>
      unfold perform insert
      dsimp only
      split
      . rfl
      . next answer hanswer =>
        apply Congruence.equality.andThen rfl
        split
        . rfl
        . next inserted hinserted =>
          apply hcontent
          exact .inr ⟨name, inserted, ⟨answer, hanswer, hinserted⟩, List.infix_refl _⟩
    | comment | unclosed | delimiters | badDelimiters => rfl

/-- All that contexts are asked for at a tag is written. -/
def AsksWritten (resolver : Resolver) (template : Bytes) (event : Event) : Prop :=
  match event with
  | .step step =>
    ∀ name, step.action.name? = some name →
      ∀ query ∈ Context.queries name, resolver.Written template query
  | _ => True

theorem asksWritten_invariant (engine : Engine) (template : Bytes) (seen : List Event)
    : engine.Invariant seen (fun _ => True) (fun text _ _ => engine.resolver.Written template text)
        (AsksWritten engine.resolver template) where
  tail _ _ := trivial
  literal _ _ := trivial
  step htext hstep := fun _ hname _ => written_of_mem_queries htext hstep hname
  resume htext _ := htext
  print _ _ := ⟨trivial, trivial⟩
  call _ _ _ _ _ := ⟨trivial, fun _ _ _ _ => trivial⟩
  enter htext hstep haction _ _ _ := ⟨trivial, htext.of_part (Step.infix_of_next? hstep haction)⟩
  insert _ _ _ hanswer _ := by
    refine ⟨trivial, ?_⟩
    intro content hcontent
    exact .inr ⟨_, content, ⟨_, hanswer, hcontent⟩, List.infix_refl _⟩

/--
Data whose name is written neither in the template nor in a partial makes no difference: contexts that
agree on all names written there give the same run, and are asked for no other names.
-/
theorem process_eq_of_written (engine : Engine) (template : Bytes) (context context' : Context)
    (hagree : ∀ name, engine.resolver.Written template name → context name = context' name) (depth : Nat)
    : engine.process depth [context] .standard template = engine.process depth [context'] .standard template
        ∧ ∀ event ∈ (engine.process depth [context] .standard template).events,
            AsksWritten engine.resolver template event := by
  have hwritten : engine.resolver.Written template template := .inl (List.infix_refl _)
  constructor
  . apply (written_simulation engine template).process depth _ hwritten
    exact .cons hagree .nil
  . exact (asksWritten_invariant engine template _).process trivial hwritten

theorem process_eq_of_written_with_secret
    : let template := Bytes.ofAscii "{{#a}}{{b}}{{/a}}{{>p}}"
      let engine : Engine := ⟨id, .ofTable [(Bytes.ofAscii "p", Bytes.ofAscii "{{=<% %>=}}<%d.1%>")]⟩
      let secret := Bytes.ofAscii "c"
      let context (hidden : Binding) : Context := fun name =>
        if name = secret then hidden
        else if name = Bytes.ofAscii "a" then .list [Context.empty, Context.empty]
        else if name = Bytes.ofAscii "b" then .variable (.text "y")
        else if name = Bytes.ofAscii "d" then .list [Context.empty, fun _ => .flag true]
        else .absent
      let run (hidden : Binding) := engine.process 2 [context hidden] .standard template
      (∀ name, engine.resolver.Written template name →
          context (.flag true) name = context (.list [Context.empty]) name)
        ∧ run (.flag true) = run (.list [Context.empty])
        ∧ (run (.flag true)).output = Bytes.ofAscii "yyTrue" := by
  intro template engine secret context run
  have hsecret : ¬ engine.resolver.Written template secret := by
    rintro (htemplate | ⟨name, content, hloads, hcontent⟩)
    . revert htemplate
      decide +kernel
    . injection List.mem_singleton.mp (Resolver.mem_of_loads hloads) with _ heq
      rw [heq] at hcontent
      revert hcontent
      decide +kernel
  have hagree : ∀ name, engine.resolver.Written template name →
      context (.flag true) name = context (.list [Context.empty]) name := by
    intro name hname
    have hne : name ≠ secret := by
      rintro rfl
      exact hsecret hname
    unfold context
    rw [if_neg hne, if_neg hne]
  exact ⟨hagree, (process_eq_of_written engine template _ _ hagree 2).1, by decide +kernel⟩

end Engine

end Mustache
