import Mustache.Proofs.Descent
import Mustache.Proofs.Written

/-!
This module contains stacks that are padded with contexts that add nothing: they know no name at all, or
they stand further in already. No search finds anything in them that it would not find without them, so
the padding makes no difference to a render.
-/

namespace Mustache

namespace Context

def KnowsNothing (context : Context) : Prop :=
  ∀ name, context name = .absent

theorem KnowsNothing.read? {context : Context} (h : context.KnowsNothing) (name : Bytes)
    : context.read? name = .ok none := by
  cases hpath : ItemPath.ofName? name with
  | none => exact read?_of_no_path (h name) hpath
  | some path =>
    rw [read?_of_path (h name) hpath]
    unfold item?
    rw [h path.list]

end Context

namespace Stack

/-- The contexts are asked one after the other, up to the first that has an answer or fails. -/
def firstAnswer (ask : Context → Except Failure (Option α)) (stack : Stack)
    : Except Failure (Option α) :=
  match stack with
  | [] => .ok none
  | context :: rest =>
    match ask context with
    | .error failure => .error failure
    | .ok (some answer) => .ok (some answer)
    | .ok none => firstAnswer ask rest

theorem read_eq_firstAnswer (stack : Stack) (name : Bytes)
    : stack.read name = (stack.firstAnswer (·.read? name)).map (·.getD []) := by
  induction stack with
  | nil => rfl
  | cons context rest ih =>
    unfold read firstAnswer
    rw [ih]
    rcases context.read? name with _ | _ | _ <;> rfl

theorem bound?_eq_firstAnswer (stack : Stack) (name : Bytes)
    : .ok (stack.bound? name)
        =
      stack.firstAnswer fun context =>
        .ok (if (context name).isAbsent then none else some (context name)) := by
  unfold bound?
  induction stack with
  | nil => rfl
  | cons context rest ih =>
    unfold firstAnswer
    rw [List.findSome?_cons, ← ih]
    dsimp
    cases (context name).isAbsent <;> rfl

theorem itemBinding?_eq_firstAnswer (stack : Stack) (path : ItemPath)
    : stack.itemBinding? path
        =
      stack.firstAnswer fun context =>
        (context.item? path).map fun item? => item?.map fun item => item path.inner := by
  induction stack with
  | nil => rfl
  | cons context rest ih =>
    unfold itemBinding? firstAnswer
    rw [ih]
    rcases context.item? path with _ | _ | _ <;> rfl

theorem firstAnswer_insert {ask : Context → Except Failure (Option α)} {front rest : Stack}
    {context : Context} (h : ask context = .ok none ∨ context ∈ front)
    : (front ++ context :: rest).firstAnswer ask = (front ++ rest).firstAnswer ask := by
  induction front with
  | nil =>
    have hasked : ask context = .ok none := by simpa using h
    simp [firstAnswer, hasked]
  | cons first front ih =>
    simp only [List.cons_append, firstAnswer]
    -- The rest only matters if the first context has no answer, and then a copy of it has none.
    cases hasked : ask first with
    | error => rfl
    | ok answer? =>
      cases answer? with
      | some => rfl
      | none =>
        apply ih
        rw [List.mem_cons] at h
        rcases h with hnothing | rfl | hmem
        . exact .inl hnothing
        . exact .inl hasked
        . exact .inr hmem

/-- The second stack is the first with more contexts in it, none of which adds anything. -/
inductive Padded (stack : Stack) : Stack → Prop where
  | refl : Padded stack stack
  | unknowing {front rest : Stack} {context : Context} (hnothing : context.KnowsNothing)
    (h : Padded stack (front ++ rest))
    : Padded stack (front ++ context :: rest)
  | again {front rest : Stack} {context : Context} (hmem : context ∈ front)
    (h : Padded stack (front ++ rest))
    : Padded stack (front ++ context :: rest)

namespace Padded

variable {stack padded : Stack}

theorem firstAnswer_eq (h : stack.Padded padded) {ask : Context → Except Failure (Option α)}
    (hask : ∀ context : Context, context.KnowsNothing → ask context = .ok none)
    : padded.firstAnswer ask = stack.firstAnswer ask := by
  induction h with
  | refl => rfl
  | unknowing hnothing _ ih =>
    rw [firstAnswer_insert]
    . exact ih
    . exact .inl (hask _ hnothing)
  | again hmem _ ih =>
    rw [firstAnswer_insert]
    . exact ih
    . exact .inr hmem

theorem read_eq (h : stack.Padded padded) (name : Bytes) : padded.read name = stack.read name := by
  rw [read_eq_firstAnswer, read_eq_firstAnswer, h.firstAnswer_eq]
  intro context hnothing
  exact hnothing.read? name

theorem bound?_eq (h : stack.Padded padded) (name : Bytes)
    : padded.bound? name = stack.bound? name := by
  apply @Except.ok.inj Failure
  rw [bound?_eq_firstAnswer, bound?_eq_firstAnswer, h.firstAnswer_eq]
  intro context hnothing
  rw [hnothing name]
  rfl

theorem itemBinding?_eq (h : stack.Padded padded) (path : ItemPath)
    : padded.itemBinding? path = stack.itemBinding? path := by
  rw [itemBinding?_eq_firstAnswer, itemBinding?_eq_firstAnswer, h.firstAnswer_eq]
  intro context hnothing
  unfold Context.item?
  rw [hnothing path.list]
  rfl

theorem probe_eq (h : stack.Padded padded) (name : Bytes) : padded.probe name = stack.probe name := by
  unfold probe
  rw [h.bound?_eq]
  split
  . rfl
  . split
    . rfl
    . apply h.itemBinding?_eq

theorem append (pushed : Stack) (h : stack.Padded padded)
    : (pushed ++ stack).Padded (pushed ++ padded) := by
  induction h with
  | refl => exact .refl
  | unknowing hnothing _ ih =>
    rw [← List.append_assoc] at ih ⊢
    exact .unknowing hnothing ih
  | again hmem _ ih =>
    rw [← List.append_assoc] at ih ⊢
    exact .again (List.mem_append_right pushed hmem) ih

end Padded

end Stack

namespace Engine

theorem padded_simulation (engine : Engine)
    : Simulation engine engine (fun _ _ _ => True) (fun padded stack => stack.Padded padded) Eq where
  toCongruence := Run.Congruence.equality
  tail _ _ := rfl
  literal _ _ := rfl
  resume _ _ := trivial
  turn {_ _ _ step padded stack inside inside' content content'} _ _ hstack hinside hcontent := by
    unfold turn
    apply Run.Congruence.equality.andThen rfl
    cases haction : step.action with
    | «variable» escaped name =>
      unfold perform printVariable
      dsimp only
      rw [hstack.read_eq]
    | enter inverted name body =>
      apply enter_related_of_probe Run.Congruence.equality (hstack.probe_eq name)
      . intro _ _
        rfl
      . intro pushed
        exact hinside _ _ inverted name body haction (hstack.append pushed) trivial
    | insert name =>
      apply insert_related Run.Congruence.equality rfl
      . intro _
        rfl
      . intro inserted
        exact hcontent inserted trivial
    | comment | unclosed | delimiters | badDelimiters => rfl

/-- The items of a list that know nothing leave their section as many renders in the stack around it. -/
theorem enter_of_unknowing (engine : Engine) (depth : Nat) {stack : Stack} {name : Bytes}
    {items : List Context} (delims : Delimiters) (body : Bytes)
    (hprobe : stack.probe name = .ok (some (.list items)))
    (hnothing : ∀ item ∈ items, item.KnowsNothing)
    : (enter stack false name body fun inner => engine.process depth inner delims body)
        =
      Run.each (List.replicate items.length stack) fun inner => engine.process depth inner delims body := by
  have hplan : Plan.ofSection stack false name = .ok (.scopes (items.map (· :: stack))) := by
    unfold Plan.ofSection
    rw [hprobe]
    rfl
  unfold enter
  rw [hplan]
  dsimp only
  rw [Run.each_map, ← List.map_const', Run.each_map]
  apply Run.Congruence.equality.each
  intro item hitem
  apply (padded_simulation engine).process depth _ trivial
  exact @Stack.Padded.unknowing stack [] stack item (hnothing item hitem) .refl

/--
Contexts that know nothing, and contexts that stand further in already, make no difference to a render.
So a section over items that know nothing renders its body in the stack around it, once for each item.
-/
theorem process_eq_of_padded (engine : Engine) (depth : Nat) {stack padded : Stack} (delims : Delimiters)
    (text : Bytes) (h : stack.Padded padded)
    : engine.process depth padded delims text = engine.process depth stack delims text
        ∧ ∀ pos step name body (items : List Context), Step.next? text delims pos = some step →
            step.action = .enter false name body →
            stack.probe name = .ok (some (.list items)) →
            (∀ item ∈ items, item.KnowsNothing) →
              engine.walk (engine.process depth) stack delims text pos
                =
              (Run.emit (.literal (Bytes.slice text pos step.tag.start))).andThen fun _ =>
                (Run.emit (.step step)).andThen fun _ =>
                  (Run.each (List.replicate items.length stack) fun inner =>
                    engine.process (depth + 1) inner step.delims body).andThen fun _ =>
                      engine.walk (engine.process depth) stack step.next text step.resume := by
  constructor
  . exact (padded_simulation engine).process depth h trivial
  . intro pos step name body items hstep haction hprobe hnothing
    rw [walk_of_some engine _ _ hstep]
    unfold turn perform
    rw [haction, ← enter_of_unknowing engine (depth + 1) step.delims body hprobe hnothing]
    dsimp only
    rw [Run.andThen_assoc]
    rfl

theorem process_eq_of_padded_between_lists
    : let entry : Context := fun name =>
        if name = Bytes.ofAscii "c" then .variable (.text "x") else .absent
      let inner : Context := fun name =>
        if name = Bytes.ofAscii "a" then .list [entry] else .absent
      let outer : Context := fun name =>
        if name = Bytes.ofAscii "b" then .list [Context.empty, Context.empty] else .absent
      let engine : Engine := ⟨id, Resolver.none⟩
      let text := Bytes.ofAscii "{{#b}}{{a.0.c}}{{/b}}"
      let run (stack : Stack) := engine.process 1 stack .standard text
      Stack.Padded [inner, outer] [inner, Context.empty, outer, inner]
        ∧ run [inner, Context.empty, outer, inner] = run [inner, outer]
        ∧ (run [inner, outer]).output = Bytes.ofAscii "xx" := by
  intro entry inner outer engine text run
  have hpadded : Stack.Padded [inner, outer] [inner, Context.empty, outer, inner] := by
    apply @Stack.Padded.again _ [inner, Context.empty, outer] [] inner
    . simp
    . apply @Stack.Padded.unknowing _ [inner] [outer] Context.empty
      . intro _
        rfl
      . exact .refl
  exact ⟨hpadded, (process_eq_of_padded engine 1 .standard text hpadded).1, by decide +kernel⟩

end Engine

end Mustache
