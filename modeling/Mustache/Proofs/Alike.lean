import Mathlib.Data.List.Forall2
import Mustache.Proofs.Descent
import Mustache.Proofs.Simulation

/-!
This module contains data that is alike: it has the same fields, items and texts, and differs in how
they are held. Contexts made of such data give the same renders.
-/

namespace Mustache

namespace Value

/-- The bytes of a text. A view is no text, as its items are numbers. -/
inductive IsText : Value → Bytes → Prop where
  | text (s : String) : IsText (.text s) (Utf8.encode s)
  | string (b : Bytes) : IsText (.bytes .string b) b
  | buffer (b : Bytes) : IsText (.bytes .buffer b) b

/-- The items of a sequence. The fields of a row are found by name, though it is a sequence as well. -/
inductive IsSequence : Value → List Value → Prop where
  | list (items : List Value) : IsSequence (.list items) items
  | tuple (items : List Value) : IsSequence (.tuple items) items

/-- The same texts, items and fields. Neither how they are held counts, nor the order of fields. -/
inductive Alike : Value → Value → Prop where
  | same (value : Value) : Alike value value
  | text {value value' : Value} {b : Bytes} (h : value.IsText b) (h' : value'.IsText b)
    : Alike value value'
  | sequence {value value' : Value} {items items' : List Value} (h : value.IsSequence items)
    (h' : value'.IsSequence items') (hlength : items.length = items'.length)
    (hitems : ∀ (i : Nat) item item', items[i]? = some item → items'[i]? = some item' → Alike item item')
    : Alike value value'
  | record {fields fields' : List (Key × Value)} (shape shape' : Shape)
    (hnames : ∀ name, (fields.lookup (.text name)).isSome = (fields'.lookup (.text name)).isSome)
    (hfields : ∀ name value value', fields.lookup (.text name) = some value →
      fields'.lookup (.text name) = some value' → Alike value value')
    : Alike (.record shape fields) (.record shape' fields')

end Value

/-- No lookup tells the bindings apart: variables have one text and are empty alike. -/
inductive Binding.Alike : Binding → Binding → Prop where
  | same (binding : Binding) : Alike binding binding
  | variable {value value' : Value} (hrender : value.render? = value'.render?)
    (hempty : value.isEmpty = value'.isEmpty)
    : Alike (.variable value) (.variable value')
  | list {items items' : List Context}
    (h : List.Forall₂ (fun item item' => ∀ name, Alike (item name) (item' name)) items items')
    : Alike (.list items) (.list items')

namespace Binding

variable {binding binding' : Binding}

theorem Alike.eq_absent_iff (h : binding.Alike binding') : binding = .absent ↔ binding' = .absent := by
  cases h <;> simp

theorem Alike.text?_eq (h : binding.Alike binding') : binding.text? = binding'.text? := by
  cases h with
  | same => rfl
  | «variable» hrender => exact hrender
  | list => rfl

end Binding

def Context.Alike (context context' : Context) : Prop :=
  ∀ name, (context name).Alike (context' name)

/-- Both fail alike, or both have results that are related. -/
inductive ResultsAlike (R : α → β → Prop) : Except ε α → Except ε β → Prop where
  | error (reason : ε) : ResultsAlike R (.error reason) (.error reason)
  | ok {a : α} {b : β} (h : R a b) : ResultsAlike R (.ok a) (.ok b)

section

variable {R : α → β → Prop} {S : γ → δ → Prop}

theorem ResultsAlike.mapError {result : Except ε α} {result' : Except ε β} (h : ResultsAlike R result result')
    (f : ε → ε')
    : ResultsAlike R (result.mapError f) (result'.mapError f) := by
  cases h with
  | error reason => exact .error (f reason)
  | ok h => exact .ok h

theorem rel_iff {a? : Option α} {b? : Option β}
    : Option.Rel R a? b?
        ↔ a?.isSome = b?.isSome ∧ ∀ a b, a? = some a → b? = some b → R a b := by
  cases a? with
  | none => cases b? <;> simp
  | some a => cases b? <;> simp

theorem rel_map {a? : Option α} {b? : Option β} {f : α → γ} {g : β → δ} (h : Option.Rel R a? b?)
    (hfun : ∀ a b, R a b → S (f a) (g b))
    : Option.Rel S (a?.map f) (b?.map g) := by
  cases h with
  | none => exact .none
  | some h => exact .some (hfun _ _ h)

theorem rel_bind {a? : Option α} {b? : Option β} {f : α → Option γ} {g : β → Option δ}
    (h : Option.Rel R a? b?) (hfun : ∀ a b, R a b → Option.Rel S (f a) (g b))
    : Option.Rel S (a?.bind f) (b?.bind g) := by
  cases h with
  | none => exact .none
  | some h => exact hfun _ _ h

theorem rel_getElem? {items : List α} {items' : List β} (h : List.Forall₂ R items items') (i : Nat)
    : Option.Rel R items[i]? items'[i]? := by
  induction h generalizing i with
  | nil => exact .none
  | cons hitem _ ih =>
    cases i with
    | zero => exact .some hitem
    | succ i => exact ih i

theorem forall₂_of_getElem? {items : List α} {items' : List β} (hlength : items.length = items'.length)
    (hitems : ∀ (i : Nat) item item', items[i]? = some item → items'[i]? = some item' → R item item')
    : List.Forall₂ R items items' := by
  rw [List.forall₂_iff_get]
  refine ⟨hlength, ?_⟩
  intro i h h'
  apply hitems i
  . exact List.getElem?_eq_getElem h
  . exact List.getElem?_eq_getElem h'

theorem rel_lookup [BEq κ] {entries : List (κ × α)} {entries' : List (κ × β)}
    (h : List.Forall₂ (fun entry entry' => entry.1 = entry'.1 ∧ R entry.2 entry'.2) entries entries')
    (key : κ)
    : Option.Rel R (entries.lookup key) (entries'.lookup key) := by
  induction h with
  | nil => exact .none
  | @cons entry entry' _ _ hentry _ ih =>
    rcases hentry with ⟨hname, hvalue⟩
    rw [List.lookup_cons, List.lookup_cons, hname]
    cases key == entry'.1 with
    | true => exact .some hvalue
    | false => exact ih

theorem lookup_eq_of_perm [DecidableEq κ] {entries entries' : List (κ × α)} (h : entries.Perm entries')
    (hnodup : (entries.map Prod.fst).Nodup) (key : κ)
    : entries.lookup key = entries'.lookup key := by
  induction h with
  | nil => rfl
  | cons entry _ ih =>
    rw [List.lookup_cons, List.lookup_cons, ih hnodup.of_cons]
  | swap entry entry' rest =>
    have hne : entry'.1 ≠ entry.1 := by
      rintro heq
      apply (List.nodup_cons.mp hnodup).1
      rw [heq]
      exact List.mem_cons_self
    rw [List.lookup_cons, List.lookup_cons, List.lookup_cons, List.lookup_cons]
    by_cases hkey : key = entry.1
    . have hkey' : key ≠ entry'.1 := fun h => hne (h.symm.trans hkey)
      rw [beq_false_of_ne hkey']
    . rw [beq_false_of_ne hkey]
  | trans hperm _ ih ih' =>
    rw [ih hnodup, ih' ((hperm.map Prod.fst).nodup hnodup)]

end

namespace Context

theorem Alike.refl (context : Context) : context.Alike context :=
  fun _ => .same _

theorem rel_refl (context? : Option Context) : Option.Rel Alike context? context? := by
  cases context? with
  | none => exact .none
  | some context => exact .some (.refl context)

theorem alike_ofFields {field? field?' : String → Option Binding} {inner? inner?' : String → Option Context}
    (hfield : ∀ key, Option.Rel Binding.Alike (field? key) (field?' key))
    (hinner : ∀ key, Option.Rel Alike (inner? key) (inner?' key))
    : (ofFields field? inner?).Alike (ofFields field?' inner?') := by
  intro name
  have hkey := hfield (Utf8.decode name)
  unfold ofFields
  dsimp only
  generalize field? (Utf8.decode name) = binding? at hkey ⊢
  generalize field?' (Utf8.decode name) = binding?' at hkey ⊢
  cases hkey with
  | some h => exact h
  | none =>
    dsimp only
    cases cutAt? '.' (Utf8.decode name).toList with
    | none => exact .same _
    | some cut =>
      have hhead := hinner (String.ofList cut.1)
      dsimp only
      generalize inner? (String.ofList cut.1) = context? at hhead ⊢
      generalize inner?' (String.ofList cut.1) = context?' at hhead ⊢
      cases hhead with
      | none => exact .same _
      | some h => exact h _

theorem alike_ofItem {fields? fields?' : Option Context} {binding binding' : Binding}
    (hfields : Option.Rel Alike fields? fields?') (hbinding : binding.Alike binding')
    : (ofItem fields? binding).Alike (ofItem fields?' binding') := by
  intro name
  unfold ofItem
  cases hfields with
  | none =>
    dsimp only
    split
    . exact hbinding
    . exact .same _
  | some h =>
    dsimp only
    split
    . exact .list (.cons h .nil)
    . exact h name

end Context

namespace Value

theorem field?_eq (fields : List (Key × Value)) (name : String)
    : field? fields name = (fields.lookup (.text name)).map toBinding := by
  induction fields with
  | nil => rfl
  | cons field rest ih =>
    rcases field with ⟨key, value⟩
    unfold field?
    rw [List.lookup_cons, ih]
    by_cases h : key = .text name
    . simp [h]
    . have : (Key.text name == key) = false := by simp [Ne.symm h]
      rw [if_neg h, this]

theorem inner?_eq (fields : List (Key × Value)) (name : String)
    : inner? fields name = (fields.lookup (.text name)).bind context? := by
  induction fields with
  | nil => rfl
  | cons field rest ih =>
    rcases field with ⟨key, value⟩
    unfold inner?
    rw [List.lookup_cons, ih]
    by_cases h : key = .text name
    . simp [h]
    . have : (Key.text name == key) = false := by simp [Ne.symm h]
      rw [if_neg h, this]

theorem itemContexts_eq_map (items : List Value)
    : itemContexts items = items.map fun item => Context.ofItem item.context? item.toBinding := by
  induction items with
  | nil => rfl
  | cons item rest ih =>
    unfold itemContexts
    rw [ih]
    rfl

theorem Alike.ofItems {value value' : Value} {items items' : List Value} (h : value.IsSequence items)
    (h' : value'.IsSequence items') (hitems : List.Forall₂ Alike items items')
    : value.Alike value' := by
  apply Alike.sequence h h' hitems.length_eq
  intro i
  exact (rel_iff.mp (rel_getElem? hitems i)).2

/-- Records are alike if one has the fields of the other in some order, with values that are alike. -/
theorem Alike.ofFields {fields permuted fields' : List (Key × Value)} (shape shape' : Shape)
    (hperm : fields.Perm permuted) (hnodup : (fields.map Prod.fst).Nodup)
    (hvalues : List.Forall₂ (fun field field' => field.1 = field'.1 ∧ field.2.Alike field'.2) permuted fields')
    : (Value.record shape fields).Alike (.record shape' fields') := by
  have hfields : ∀ key, Option.Rel Alike (fields.lookup key) (fields'.lookup key) := by
    intro key
    rw [lookup_eq_of_perm hperm hnodup]
    exact rel_lookup hvalues key
  apply Alike.record
  . intro name
    exact (rel_iff.mp (hfields (.text name))).1
  . intro name
    exact (rel_iff.mp (hfields (.text name))).2

/-- As bindings and as contexts the values cannot be told apart. -/
structure Interchangeable (value value' : Value) : Prop where
  toBinding : value.toBinding.Alike value'.toBinding
  context? : Option.Rel Context.Alike value.context? value'.context?

theorem IsText.render? {value : Value} {b : Bytes} (h : value.IsText b) : value.render? = .ok b := by
  cases h <;> rfl

theorem isEmpty_encode (s : String) : (Utf8.encode s).isEmpty = s.isEmpty := by
  rw [Bool.eq_iff_iff, List.isEmpty_iff, String.isEmpty_iff, ← String.toList_eq_nil_iff]
  unfold Utf8.encode
  rw [List.flatMap_eq_nil_iff]
  constructor
  . intro h
    rw [List.eq_nil_iff_forall_not_mem]
    intro c hc
    exact String.utf8EncodeChar_ne_nil (h c hc)
  . intro h
    simp [h]

theorem IsText.isEmpty {value : Value} {b : Bytes} (h : value.IsText b)
    : value.isEmpty = .ok b.isEmpty := by
  cases h with
  | text s =>
    rw [isEmpty_encode]
    rfl
  | string => rfl
  | buffer => rfl

theorem IsText.toBinding {value : Value} {b : Bytes} (h : value.IsText b)
    : value.toBinding = .variable value := by
  cases h <;> rfl

theorem IsText.context? {value : Value} {b : Bytes} (h : value.IsText b)
    : value.context? = none := by
  cases h <;> rfl

theorem IsText.interchangeable {value value' : Value} {b : Bytes} (h : value.IsText b)
    (h' : value'.IsText b)
    : Interchangeable value value' where
  toBinding := by
    rw [h.toBinding, h'.toBinding]
    apply Binding.Alike.variable
    . rw [h.render?, h'.render?]
    . rw [h.isEmpty, h'.isEmpty]
  context? := by
    rw [h.context?, h'.context?]
    exact .none

theorem IsSequence.toBinding {value : Value} {items : List Value} (h : value.IsSequence items)
    : value.toBinding = .list (itemContexts items) := by
  cases h <;> rfl

theorem IsSequence.context? {value : Value} {items : List Value} (h : value.IsSequence items)
    : value.context? = none := by
  cases h <;> rfl

theorem Alike.interchangeable {value value' : Value} (h : value.Alike value')
    : Interchangeable value value' := by
  induction h with
  | same value => exact ⟨.same _, Context.rel_refl _⟩
  | text h h' => exact h.interchangeable h'
  | @sequence value value' items items' h h' hlength _ ih =>
    constructor
    . rw [h.toBinding, h'.toBinding, itemContexts_eq_map, itemContexts_eq_map]
      apply Binding.Alike.list
      rw [List.forall₂_map_left_iff, List.forall₂_map_right_iff]
      apply forall₂_of_getElem? hlength
      intro i item item' hitem hitem'
      have := ih i item item' hitem hitem'
      exact Context.alike_ofItem this.context? this.toBinding
    . rw [h.context?, h'.context?]
      exact .none
  | @record fields fields' shape shape' hnames _ ih =>
    -- Fields are only looked up by name, so their order does not count.
    have hfields : ∀ name, Option.Rel Interchangeable (fields.lookup (.text name))
        (fields'.lookup (.text name)) := by
      intro name
      exact rel_iff.mpr ⟨hnames name, ih name⟩
    have hcontext : (Context.ofFields (field? fields) (inner? fields)).Alike
        (Context.ofFields (field? fields') (inner? fields')) := by
      apply Context.alike_ofFields
      . intro key
        rw [field?_eq, field?_eq]
        exact rel_map (hfields key) fun _ _ h => h.toBinding
      . intro key
        rw [inner?_eq, inner?_eq]
        exact rel_bind (hfields key) fun _ _ h => h.context?
    exact ⟨.list (.cons hcontext .nil), .some hcontext⟩

end Value

def Stack.Alike (stack stack' : Stack) : Prop :=
  List.Forall₂ Context.Alike stack stack'

namespace Context

variable {context context' : Context}

theorem Alike.item? (h : context.Alike context') (path : ItemPath)
    : ResultsAlike (Option.Rel Alike) (context.item? path) (context'.item? path) := by
  have hlist := h path.list
  unfold Context.item?
  generalize context path.list = binding at hlist ⊢
  generalize context' path.list = binding' at hlist ⊢
  cases hlist with
  | same binding =>
    cases binding with
    | list items =>
      dsimp only
      split
      . exact .error _
      . exact .ok (rel_refl _)
    | _ => exact .ok .none
  | «variable» => exact .ok .none
  | list hitems =>
    dsimp only
    split
    . exact .error _
    . exact .ok (rel_getElem? hitems _)

theorem Alike.read?_eq {context context' : Context} (h : context.Alike context') (name : Bytes)
    : context.read? name = context'.read? name := by
  by_cases habsent : context name = .absent
  . have habsent' := (h name).eq_absent_iff.mp habsent
    cases hpath : ItemPath.ofName? name with
    | none => rw [read?_of_no_path habsent hpath, read?_of_no_path habsent' hpath]
    | some path =>
      have := ItemPath.inner_length_lt hpath
      rw [read?_of_path habsent hpath, read?_of_path habsent' hpath]
      have hitem := h.item? path
      generalize context.item? path = item? at hitem ⊢
      generalize context'.item? path = item?' at hitem ⊢
      cases hitem with
      | error => rfl
      | ok hitem =>
        cases hitem with
        | none => rfl
        | some hitem =>
          dsimp only
          -- The items are alike again, and the name that is left is shorter.
          rw [Alike.read?_eq hitem path.inner]
  . have habsent' := fun h' => habsent ((h name).eq_absent_iff.mpr h')
    rw [read?_of_bound habsent, read?_of_bound habsent', (h name).text?_eq]
termination_by name.length

end Context

namespace Stack

variable {stack stack' : Stack}

theorem Alike.read_eq (h : stack.Alike stack') (name : Bytes) : stack.read name = stack'.read name := by
  induction h with
  | nil => rfl
  | cons hcontext _ ih =>
    unfold read
    rw [hcontext.read?_eq, ih]

theorem Alike.bound? (h : stack.Alike stack') (name : Bytes)
    : Option.Rel Binding.Alike (stack.bound? name) (stack'.bound? name) := by
  unfold Stack.bound?
  induction h with
  | nil => exact .none
  | @cons context context' _ _ hcontext _ ih =>
    rw [List.findSome?_cons, List.findSome?_cons]
    dsimp only
    by_cases habsent : context name = .absent
    . have habsent' := (hcontext name).eq_absent_iff.mp habsent
      rw [habsent, habsent']
      exact ih
    . have habsent' := fun h' => habsent ((hcontext name).eq_absent_iff.mpr h')
      rw [← Binding.isAbsent_iff] at habsent habsent'
      rw [if_neg habsent, if_neg habsent']
      exact .some (hcontext name)

theorem Alike.itemBinding? (h : stack.Alike stack') (path : ItemPath)
    : ResultsAlike (Option.Rel Binding.Alike) (stack.itemBinding? path) (stack'.itemBinding? path) := by
  induction h with
  | nil => exact .ok .none
  | @cons context context' _ _ hcontext _ ih =>
    have hitem := hcontext.item? path
    unfold Stack.itemBinding?
    generalize context.item? path = item? at hitem ⊢
    generalize context'.item? path = item?' at hitem ⊢
    cases hitem with
    | error => exact .error _
    | ok hitem =>
      cases hitem with
      | none => exact ih
      | some hitem => exact .ok (.some (hitem path.inner))

theorem Alike.probe (h : stack.Alike stack') (name : Bytes)
    : ResultsAlike (Option.Rel Binding.Alike) (stack.probe name) (stack'.probe name) := by
  have hbound := h.bound? name
  unfold Stack.probe
  generalize stack.bound? name = binding? at hbound ⊢
  generalize stack'.bound? name = binding?' at hbound ⊢
  cases hbound with
  | some hbinding => exact .ok (.some hbinding)
  | none =>
    dsimp only
    split
    . exact .ok .none
    . exact h.itemBinding? _

end Stack

namespace Plan

inductive Alike : Plan → Plan → Prop where
  | scopes {inners inners' : List Stack} (h : List.Forall₂ Stack.Alike inners inners')
    : Alike (.scopes inners) (.scopes inners')
  | call (effectful : Bool) (callout : Callout)
    : Alike (.call effectful callout) (.call effectful callout)

variable {stack stack' : Stack} {binding? binding?' : Option Binding}

theorem alike_once (h : stack.Alike stack') (condition : Bool)
    : (once stack condition).Alike (once stack' condition) := by
  apply Alike.scopes
  cases condition with
  | false => exact .nil
  | true => exact .cons h .nil

theorem alike_tested (h : stack.Alike stack') (empty? : Except MagnitudeError Bool)
    (condition : Bool → Bool)
    : ResultsAlike Alike (empty?.map fun empty => once stack (condition empty))
        (empty?.map fun empty => once stack' (condition empty)) := by
  cases empty? with
  | error error => exact .error error
  | ok empty => exact .ok (alike_once h (condition empty))

theorem alike_entered {items items' : List Context} (h : stack.Alike stack')
    (hitems : List.Forall₂ Context.Alike items items')
    : Alike (.scopes (items.map (· :: stack))) (.scopes (items'.map (· :: stack'))) := by
  apply Alike.scopes
  rw [List.forall₂_map_left_iff, List.forall₂_map_right_iff]
  exact hitems.imp fun _ _ hitem => .cons hitem h

theorem Alike.positive (h : stack.Alike stack') (hbinding : Option.Rel Binding.Alike binding? binding?')
    : ResultsAlike Alike (Plan.positive stack binding?) (Plan.positive stack' binding?') := by
  cases hbinding with
  | none => exact .ok (alike_once h false)
  | @some binding _ hbinding =>
    cases hbinding with
    | same =>
      cases binding with
      | absent => exact .ok (alike_once h false)
      | «variable» value => exact alike_tested h value.isEmpty (!·)
      | list items => exact .ok (alike_entered h (List.forall₂_same.mpr fun item _ => .refl item))
      | flag b => exact .ok (alike_once h b)
      | callout effectful callout => exact .ok (.call effectful callout)
    | «variable» _ hempty =>
      unfold Plan.positive
      dsimp only
      rw [hempty]
      exact alike_tested h _ (!·)
    | list hitems => exact .ok (alike_entered h hitems)

theorem Alike.inverted (h : stack.Alike stack') (hbinding : Option.Rel Binding.Alike binding? binding?')
    : ResultsAlike Alike (Plan.inverted stack binding?) (Plan.inverted stack' binding?') := by
  cases hbinding with
  | none => exact .ok (alike_once h true)
  | @some binding _ hbinding =>
    cases hbinding with
    | same =>
      cases binding with
      | absent => exact .ok (alike_once h false)
      | «variable» value => exact alike_tested h value.isEmpty id
      | list items => exact .ok (alike_once h items.isEmpty)
      | flag b => exact .ok (alike_once h !b)
      | callout effectful callout => exact .ok (alike_once h false)
    | «variable» _ hempty =>
      unfold Plan.inverted
      dsimp only
      rw [hempty]
      exact alike_tested h _ id
    | list hitems =>
      cases hitems with
      | nil => exact .ok (alike_once h true)
      | cons => exact .ok (alike_once h false)

theorem Alike.ofSection (h : stack.Alike stack') (inverted : Bool) (name : Bytes)
    : ResultsAlike Alike (Plan.ofSection stack inverted name) (Plan.ofSection stack' inverted name) := by
  have hprobe := h.probe name
  unfold Plan.ofSection
  generalize stack.probe name = binding? at hprobe ⊢
  generalize stack'.probe name = binding?' at hprobe ⊢
  cases hprobe with
  | error => exact .error _
  | ok hbinding =>
    dsimp only
    apply ResultsAlike.mapError
    cases inverted with
    | true => exact Alike.inverted h hbinding
    | false => exact Alike.positive h hbinding

end Plan

namespace Engine

theorem enter_eq_of_alike {stack stack' : Stack} {inside inside' : Stack → Run} (h : stack.Alike stack')
    (hinside : ∀ inner inner', inner.Alike inner' → inside inner = inside' inner') (inverted : Bool)
    (name body : Bytes)
    : enter stack inverted name body inside = enter stack' inverted name body inside' := by
  have hplan := Plan.Alike.ofSection h inverted name
  unfold enter
  generalize Plan.ofSection stack inverted name = plan? at hplan ⊢
  generalize Plan.ofSection stack' inverted name = plan?' at hplan ⊢
  cases hplan with
  | error => rfl
  | ok hplan =>
    cases hplan with
    | call => rfl
    | scopes hinners =>
      dsimp only
      induction hinners with
      | nil => rfl
      | cons hinner _ ih => rw [Run.each_cons, Run.each_cons, hinside _ _ hinner, ih]

theorem alike_simulation (engine : Engine)
    : Simulation engine engine (fun _ _ _ => True) Stack.Alike Eq where
  toCongruence := Run.Congruence.equality
  tail _ _ := rfl
  literal _ _ := rfl
  resume _ _ := trivial
  turn {_ _ _ step stack stack' inside inside' content content'} _ _ hstack hinside hcontent := by
    unfold turn
    apply Run.Congruence.equality.andThen rfl
    cases haction : step.action with
    | «variable» escaped name =>
      unfold perform printVariable
      dsimp only
      rw [hstack.read_eq]
    | enter inverted name body =>
      apply enter_eq_of_alike hstack
      intro inner inner' hinner
      exact hinside inner inner' inverted name body haction hinner trivial
    | insert name =>
      apply insert_related Run.Congruence.equality rfl
      . intro _
        rfl
      . intro inserted
        exact hcontent inserted trivial
    | comment | unclosed | delimiters | badDelimiters => rfl

/--
Renders depend on data only through its fields, items and texts. A record gives a context, data that is
alike gives one as well, and with both contexts every template has the same run.
-/
theorem render_eq_of_alike {shape : Shape} {fields : List (Key × Value)} {data : Value}
    (h : (Value.record shape fields).Alike data)
    : ∃ context context', Context.ofRecord (.record shape fields) = .ok context
        ∧ Context.ofRecord data = .ok context'
        ∧ ∀ (engine : Engine) (template : Bytes),
            engine.render template context = engine.render template context' := by
  have hcontext := h.interchangeable.context?
  unfold Context.ofRecord
  generalize hleft : (Value.record shape fields).context? = context? at hcontext ⊢
  generalize data.context? = context?' at hcontext ⊢
  cases hcontext with
  | none => contradiction
  | @some context context' hcontext =>
    refine ⟨context, context', rfl, rfl, ?_⟩
    intro engine template
    exact (alike_simulation engine).process maxDepth (.cons hcontext .nil) trivial

theorem render_eq_of_alike_row
    : let name := Key.text "name"
      let items := Key.text "a"
      let size := Key.text "size"
      let accent := Value.text "é"
      let mapping := [(name, accent), (items, .list [accent, .record .mapping [(size, .int 1), (name, .null)]])]
      let row : List (Key × Value) :=
        [(items, .tuple [.bytes .string [0xc3, 0xa9], .record .object [(name, .null), (size, .int 1)]]),
          (name, .bytes .buffer [0xc3, 0xa9])]
      let template := Bytes.ofAscii "{{a.0}}{{#a}}{{size}}{{/a}}{{name}}"
      let engine : Engine := ⟨id, Resolver.none⟩
      (Value.record .mapping mapping).Alike (.record .row row)
        ∧ (∃ context context', Context.ofRecord (.record .mapping mapping) = .ok context
            ∧ Context.ofRecord (.record .row row) = .ok context'
            ∧ ∀ (engine : Engine) (template : Bytes),
                engine.render template context = engine.render template context')
        ∧ (engine.render template (.ofData mapping)).output = Utf8.encode "é1é" := by
  intro name items size accent mapping row template engine
  have hrecord : (Value.record .mapping [(size, .int 1), (name, .null)]).Alike
      (.record .object [(name, .null), (size, .int 1)]) := by
    apply Value.Alike.ofFields _ _ (.swap _ _ _) (by decide)
    exact .cons ⟨rfl, .same _⟩ (.cons ⟨rfl, .same _⟩ .nil)
  have hitems : (Value.list [accent, .record .mapping [(size, .int 1), (name, .null)]]).Alike
      (.tuple [.bytes .string [0xc3, 0xa9], .record .object [(name, .null), (size, .int 1)]]) := by
    apply Value.Alike.ofItems (.list _) (.tuple _)
    exact .cons (.text (.text _) (.string _)) (.cons hrecord .nil)
  have hrow : (Value.record .mapping mapping).Alike (.record .row row) := by
    apply Value.Alike.ofFields _ _ (.swap _ _ _) (by decide)
    exact .cons ⟨rfl, hitems⟩ (.cons ⟨rfl, .text (.text _) (.buffer _)⟩ .nil)
  exact ⟨hrow, render_eq_of_alike hrow, by decide +kernel⟩

end Engine

end Mustache
