import Mustache.Section

/-!
This module contains the relation between a section and the inverted section of the same name: where
the name is bound, or is found nowhere, exactly one of the two renders its body. The one gap is a path
that leads to an item which does not know the rest of it: then neither does.
-/

namespace Mustache

namespace Binding

theorem isAbsent_iff (binding : Binding) : binding.isAbsent = true ↔ binding = .absent := by
  cases binding <;> simp [isAbsent]

end Binding

namespace Stack

/-- The first item that a path addresses, the innermost context first. -/
inductive Addresses (path : ItemPath) : Stack → Context → Prop where
  | here {context item : Context} {rest : Stack} (h : context.item? path = .ok (some item))
    : Addresses path (context :: rest) item
  | outer {context item : Context} {rest : Stack} (h : context.item? path = .ok none)
    (hrest : Addresses path rest item)
    : Addresses path (context :: rest) item

/-- No context knows the name. As a path it leads to an item that does not know the rest of it. -/
structure LeadsNowhere (stack : Stack) (name : Bytes) : Prop where
  unbound : ∀ context ∈ stack, context name = .absent
  unknown : ∃ path item, ItemPath.ofName? name = some path
    ∧ Addresses path stack item
    ∧ item path.inner = .absent

theorem bound?_eq_none_iff (stack : Stack) (name : Bytes)
    : stack.bound? name = none ↔ ∀ context ∈ stack, context name = .absent := by
  unfold bound?
  rw [List.findSome?_eq_none_iff]
  constructor
  . intro h context hcontext
    have := h context hcontext
    rw [← Binding.isAbsent_iff]
    simpa using this
  . intro h context hcontext
    rw [h context hcontext]
    rfl

theorem bound?_ne_absent (stack : Stack) (name : Bytes)
    : stack.bound? name ≠ some .absent := by
  unfold bound?
  intro h
  rw [List.findSome?_eq_some_iff] at h
  rcases h with ⟨_, context, _, _, hcontext, _⟩
  dsimp at hcontext
  split at hcontext
  . contradiction
  . next hpresent =>
    rw [Option.some.injEq] at hcontext
    rw [hcontext] at hpresent
    exact hpresent rfl

theorem itemBinding?_eq_some_iff (stack : Stack) (path : ItemPath) (binding : Binding)
    : stack.itemBinding? path = .ok (some binding)
        ↔
      ∃ item, Addresses path stack item ∧ item path.inner = binding := by
  constructor
  . intro h
    induction stack with
    | nil => simp [itemBinding?] at h
    | cons context rest ih =>
      unfold itemBinding? at h
      split at h
      . contradiction
      . next item hitem =>
        simp only [Except.ok.injEq, Option.some.injEq] at h
        exact ⟨item, .here hitem, h⟩
      . next hitem =>
        rcases ih h with ⟨item, haddresses, hbinding⟩
        exact ⟨item, .outer hitem haddresses, hbinding⟩
  . intro h
    rcases h with ⟨item, haddresses, hbinding⟩
    induction haddresses with
    | here hitem =>
      unfold itemBinding?
      rw [hitem, ← hbinding]
    | outer hitem _ ih =>
      unfold itemBinding?
      rw [hitem]
      exact ih hbinding

theorem probe_eq_absent_iff (stack : Stack) (name : Bytes)
    : stack.probe name = .ok (some .absent) ↔ stack.LeadsNowhere name := by
  unfold probe
  constructor
  . intro h
    split at h
    . next binding hbound =>
      simp only [Except.ok.injEq] at h
      rw [h] at hbound
      exact absurd hbound (bound?_ne_absent stack name)
    . next hbound =>
      split at h
      . simp at h
      . next path hpath =>
        rw [itemBinding?_eq_some_iff] at h
        rcases h with ⟨item, haddresses, hitem⟩
        rw [bound?_eq_none_iff] at hbound
        exact ⟨hbound, path, item, hpath, haddresses, hitem⟩
  . intro h
    rcases h with ⟨hbound, path, item, hpath, haddresses, hitem⟩
    rw [← bound?_eq_none_iff] at hbound
    rw [hbound, hpath]
    dsimp
    rw [itemBinding?_eq_some_iff]
    exact ⟨item, haddresses, hitem⟩

end Stack

namespace Plan

/-- Of the section and the inverted section called `name`, exactly one renders its body. -/
def Complementary (stack : Stack) (name : Bytes) : Prop :=
  ∃ inners inverted, ofSection stack false name = .ok (.scopes inners)
    ∧ ofSection stack true name = .ok (.scopes inverted)
    ∧ (inners = [] ∧ inverted = [stack] ∨ inners ≠ [] ∧ inverted = [])

theorem ofSection_of_ok {stack : Stack} {name : Bytes} {binding? : Option Binding}
    (inverted : Bool) (h : stack.probe name = .ok binding?)
    : ofSection stack inverted name
        =
      (if inverted then Plan.inverted stack binding? else positive stack binding?).mapError .magnitude := by
  unfold ofSection
  rw [h]

theorem ofSection_of_error {stack : Stack} {name : Bytes} {failure : Failure} (inverted : Bool)
    (h : stack.probe name = .error failure)
    : ofSection stack inverted name = .error failure := by
  unfold ofSection
  rw [h]

theorem ofSection_of_absent {stack : Stack} {name : Bytes} (inverted : Bool)
    (h : stack.probe name = .ok (some .absent))
    : ofSection stack inverted name = .ok (.scopes []) := by
  rw [ofSection_of_ok inverted h]
  cases inverted <;> rfl

theorem complementary_of_ok {stack : Stack} {name : Bytes} {binding? : Option Binding}
    (h : stack.probe name = .ok binding?) (hbound : binding? ≠ some .absent)
    (hcallout : ∀ effectful callout, binding? ≠ some (.callout effectful callout))
    (hempty : ∀ value, binding? = some (.variable value) → ∃ empty, value.isEmpty = .ok empty)
    : Complementary stack name := by
  unfold Complementary
  rw [ofSection_of_ok false h, ofSection_of_ok true h]
  cases binding? with
  | none => exact ⟨[], [stack], rfl, rfl, .inl ⟨rfl, rfl⟩⟩
  | some binding =>
    cases binding with
    | absent => exact absurd rfl hbound
    | callout effectful callout => exact absurd rfl (hcallout effectful callout)
    | list items =>
      cases items with
      | nil => exact ⟨[], [stack], rfl, rfl, .inl ⟨rfl, rfl⟩⟩
      | cons item items => exact ⟨_, [], rfl, rfl, .inr ⟨by simp, rfl⟩⟩
    | flag b =>
      cases b with
      | false => exact ⟨[], [stack], rfl, rfl, .inl ⟨rfl, rfl⟩⟩
      | true => exact ⟨[stack], [], rfl, rfl, .inr ⟨by simp, rfl⟩⟩
    | «variable» value =>
      rcases hempty value rfl with ⟨empty, hvalue⟩
      simp only [positive, inverted, hvalue]
      cases empty with
      | true => exact ⟨[], [stack], rfl, rfl, .inl ⟨rfl, rfl⟩⟩
      | false => exact ⟨[stack], [], rfl, rfl, .inr ⟨by simp, rfl⟩⟩

/--
Where the probe is no callout and its emptiness can be told, a section and its inverse are
complementary unless the probe fails, or ends at an item that does not know the rest of a path. In
that last case neither renders the body.
-/
theorem complementary_iff (stack : Stack) (name : Bytes)
    (hcallout : ∀ effectful callout, stack.probe name ≠ .ok (some (.callout effectful callout)))
    (hempty : ∀ value, stack.probe name = .ok (some (.variable value)) →
      ∃ empty, value.isEmpty = .ok empty)
    : (Complementary stack name
        ↔
      (∃ binding?, stack.probe name = .ok binding?) ∧ ¬ stack.LeadsNowhere name)
        ∧ (stack.LeadsNowhere name → ∀ inverted, ofSection stack inverted name = .ok (.scopes [])) := by
  refine ⟨⟨?_, ?_⟩, ?_⟩
  . intro h
    rcases h with ⟨inners, inverted, hpositive, hinverted, hexclusive⟩
    constructor
    . cases hprobe : stack.probe name with
      | ok binding? => exact ⟨binding?, rfl⟩
      | error failure =>
        rw [ofSection_of_error false hprobe] at hpositive
        contradiction
    . intro hnowhere
      rw [← Stack.probe_eq_absent_iff] at hnowhere
      rw [ofSection_of_absent _ hnowhere] at hpositive hinverted
      simp only [Except.ok.injEq, scopes.injEq] at hpositive hinverted
      subst hpositive hinverted
      simp at hexclusive
  . intro h
    rcases h with ⟨⟨binding?, hprobe⟩, hnowhere⟩
    rw [← Stack.probe_eq_absent_iff] at hnowhere
    rw [hprobe] at hcallout hempty hnowhere
    apply complementary_of_ok hprobe
    . intro habsent
      rw [habsent] at hnowhere
      exact hnowhere rfl
    . intro effectful callout hbinding
      apply hcallout effectful callout
      rw [hbinding]
    . intro value hbinding
      apply hempty value
      rw [hbinding]
  . intro hnowhere inverted
    rw [← Stack.probe_eq_absent_iff] at hnowhere
    exact ofSection_of_absent inverted hnowhere

theorem not_complementary_item_without_field
    : let stack : Stack :=
        [fun name => if name = Bytes.ofAscii "a" then .list [Context.empty] else .absent]
      let name := Bytes.ofAscii "a.0.b"
      stack.LeadsNowhere name ∧ ¬ Complementary stack name
        ∧ ∀ inverted, ofSection stack inverted name = .ok (.scopes []) := by
  intro stack name
  have hprobe : stack.probe name = .ok (some .absent) := rfl
  have hnowhere := (Stack.probe_eq_absent_iff stack name).mp hprobe
  have := complementary_iff stack name (by simp [hprobe]) (by simp [hprobe])
  refine ⟨hnowhere, ?_, this.2 hnowhere⟩
  intro hcomplementary
  exact (this.1.mp hcomplementary).2 hnowhere

end Plan

end Mustache
