import Mathlib.Data.Prod.Lex
import Mathlib.Data.Set.Finite.List
import Mathlib.Logic.Relation
import Mathlib.Order.Filter.AtTopBot.Basic
import Mathlib.Order.Filter.Finite
import Mathlib.Order.WithBot
import Mathlib.Tactic.Choose
import Mustache.Proofs.Names
import Mustache.Proofs.Scan
import Mustache.Proofs.Simulation

/-!
This module contains rendering as a matter of levels: each text that is rendered opens others, the bodies
of its sections and the contents of its partials. Without a bound on how deep partials are nested, a
level renders if all levels that it opens do. Bodies are shorter than the text around them, and where
partials have ranks the contents of partials have lower ones, so that everything renders in the end.
-/

namespace Mustache

/-- A text that is rendered, with the stack and the delimiters that it is rendered in. -/
structure Level where
  /-- The partial that the text belongs to, unless it belongs to the template. -/
  origin : Option Bytes
  stack : Stack
  delims : Delimiters
  text : Bytes

def Action.inserted? (action : Action) : Option Bytes :=
  match action with
  | .insert name => some name
  | _ => none

namespace Level

def scan (level : Level) : Scan :=
  Scan.ofText level.text level.delims 0

def inner (level : Level) (turn : Turn) (stack : Stack) (text : Bytes) : Level where
  origin := turn.step.action.inserted?.or level.origin
  stack := stack
  delims := turn.step.delims
  text := text

end Level

namespace Engine

def texts (engine : Engine) (stack : Stack) (action : Action) : List (Stack × Bytes) :=
  match action with
  | .enter inverted name body =>
    match Plan.ofSection stack inverted name with
    | .ok (.scopes inners) => inners.map fun inner => (inner, body)
    | _ => []
  | .insert name =>
    match engine.resolver name with
    | .ok answer => answer.content.toList.map fun content => (stack, content)
    | .error _ => []
  | _ => []

/-- The levels that a level opens, in order. -/
def opened (engine : Engine) (level : Level) : List Level :=
  level.scan.turns.flatMap fun turn =>
    (engine.texts level.stack turn.step.action).map fun (stack, text) => level.inner turn stack text

/-- The run of a level, put together from runs of the levels that it opens. -/
def assemble (engine : Engine) (level : Level) (run : Level → Run) : Run :=
  (Run.each level.scan.turns fun turn =>
    (Run.emit (.literal (turn.literal level.text))).andThen fun _ =>
      engine.turn level.stack (fun stack body => run (level.inner turn stack body))
        (fun content => run (level.inner turn level.stack content)) turn.step).andThen fun _ =>
  .emit (.tail level.scan.delims (level.text.drop level.scan.stop))

/-- What a level renders to, however deep partials are nested. -/
inductive Renders (engine : Engine) : Level → Run → Prop where
  | intro {level : Level} {run : Level → Run}
    (h : ∀ inner ∈ engine.opened level, Renders engine inner (run inner))
    : Renders engine level (engine.assemble level run)

theorem mem_opened {engine : Engine} {level : Level} {turn : Turn} {stack : Stack} {text : Bytes}
    (hturn : turn ∈ level.scan.turns) (htext : (stack, text) ∈ engine.texts level.stack turn.step.action)
    : level.inner turn stack text ∈ engine.opened level := by
  unfold opened
  rw [List.mem_flatMap]
  exact ⟨turn, hturn, List.mem_map.mpr ⟨_, htext, rfl⟩⟩

section

variable {engine : Engine} {Runs : Run → Run → Prop} {level : Level} {run : Level → Run}

theorem walk_assemble_related {nested : Stack → Delimiters → Bytes → Run} (cong : Run.Congruence Runs)
    (hrefl : ∀ run, Runs run run)
    (hbody : ∀ inner ∈ engine.opened level,
      Runs (engine.walk nested inner.stack inner.delims inner.text 0) (run inner))
    (hcontent : ∀ inner ∈ engine.opened level,
      Runs (nested inner.stack inner.delims inner.text) (run inner))
    : Runs (engine.walk nested level.stack level.delims level.text 0) (engine.assemble level run) := by
  rw [walk_eq_each]
  unfold assemble
  apply cong.andThen _ (hrefl _)
  apply cong.each
  intro turn hturn
  apply cong.andThen (hrefl _)
  unfold Engine.turn
  apply cong.andThen (hrefl _)
  -- Only sections and partials open levels, all other tags do the same in both runs.
  cases haction : turn.step.action with
  | enter inverted name body =>
    unfold perform enter
    dsimp only
    split
    . exact cong.fail _
    . apply hrefl
    . next inners hplan =>
      apply cong.each
      intro inner hinner
      apply hbody (level.inner turn inner body)
      apply mem_opened hturn
      unfold texts
      rw [haction]
      dsimp only
      rw [hplan]
      exact List.mem_map.mpr ⟨inner, hinner, rfl⟩
  | insert name =>
    unfold perform insert
    dsimp only
    split
    . exact cong.fail _
    . next answer hanswer =>
      apply cong.andThen (hrefl _)
      split
      . exact cong.done
      . next content hinserted =>
        apply hcontent (level.inner turn level.stack content)
        apply mem_opened hturn
        unfold texts
        rw [haction]
        simp [hanswer, hinserted]
  | comment | «variable» | unclosed | delimiters | badDelimiters => apply hrefl

theorem process_assemble_related (cong : Run.Congruence Runs) (hrefl : ∀ run, Runs run run) (depth : Nat)
    (h : ∀ inner ∈ engine.opened level, ∀ depth' ∈ [depth, depth + 1],
      Runs (engine.process depth' inner.stack inner.delims inner.text) (run inner))
    : Runs (engine.process (depth + 1) level.stack level.delims level.text) (engine.assemble level run) := by
  apply walk_assemble_related cong hrefl
  . intro inner hinner
    exact h inner hinner (depth + 1) (by simp)
  . intro inner hinner
    exact h inner hinner depth (by simp)

end

end Engine

namespace Run

/-- The run is the whole one, or stops on the way because partials are nested too deeply. -/
def Cuts (run whole : Run) : Prop :=
  run = whole ∨ run.failure = some .tooDeep ∧ run.events <+: whole.events

namespace Cuts

theorem refl (run : Run) : run.Cuts run := .inl rfl

theorem andThen {first first' : Run} {second second' : Unit → Run} (hfirst : first.Cuts first')
    (hsecond : (second ()).Cuts (second' ()))
    : (first.andThen second).Cuts (first'.andThen second') := by
  rcases hfirst with rfl | ⟨hfailure, hevents⟩
  . cases hfailure : first.failure with
    | some failure =>
      rw [andThen_of_failed second (by simp [hfailure]), andThen_of_failed second' (by simp [hfailure])]
      exact refl first
    | none =>
      rw [andThen_of_ok second hfailure, andThen_of_ok second' hfailure]
      rcases hsecond with heq | ⟨hdeep, hevents⟩
      . exact .inl (by rw [heq])
      . exact .inr ⟨hdeep, (List.prefix_append_right_inj _).mpr hevents⟩
  . right
    rw [andThen_of_failed second (by simp [hfailure])]
    refine ⟨hfailure, ?_⟩
    cases hfailure' : first'.failure with
    | some failure =>
      rw [andThen_of_failed second' (by simp [hfailure'])]
      exact hevents
    | none =>
      rw [andThen_of_ok second' hfailure']
      exact hevents.trans (List.prefix_append _ _)

theorem congruence : Congruence Cuts where
  done := refl _
  fail _ := refl _
  andThen := andThen

end Cuts

end Run

namespace Engine

namespace Renders

variable {engine : Engine} {level : Level} {run run' : Run}

theorem cuts (h : engine.Renders level run) (depth : Nat)
    : (engine.process depth level.stack level.delims level.text).Cuts run := by
  induction h generalizing depth with
  | intro _ ih =>
    cases depth with
    | zero => exact .inr ⟨rfl, List.nil_prefix⟩
    | succ depth =>
      apply process_assemble_related Run.Cuts.congruence Run.Cuts.refl
      intro inner hinner depth' _
      exact ih inner hinner depth'

theorem eventually (h : engine.Renders level run)
    : ∀ᶠ depth in Filter.atTop, engine.process depth level.stack level.delims level.text = run := by
  induction h with
  | intro _ ih =>
    -- A level opens finitely many others, so one depth is enough for all of them.
    have hopened := (Filter.eventually_all_finite (List.finite_toSet _)).mpr ih
    rw [Filter.eventually_atTop] at hopened ⊢
    rcases hopened with ⟨least, hleast⟩
    refine ⟨least + 1, ?_⟩
    intro depth hdepth
    cases depth with
    | zero => contradiction
    | succ depth =>
      apply process_assemble_related Run.Congruence.equality (fun _ => rfl)
      intro inner hinner depth' hdepth'
      apply hleast depth' _ inner hinner
      simp only [List.mem_cons, List.not_mem_nil, or_false] at hdepth'
      omega

theorem unique (h : engine.Renders level run) (h' : engine.Renders level run') : run = run' := by
  rcases (h.eventually.and h'.eventually).exists with ⟨depth, hrun, hrun'⟩
  exact hrun.symm.trans hrun'

theorem of_acc (h : Acc (fun inner outer => inner ∈ engine.opened outer) level)
    : ∃ run, engine.Renders level run := by
  induction h with
  | intro level _ ih =>
    have : Nonempty Run := ⟨.done⟩
    choose! run hrun using ih
    exact ⟨_, .intro hrun⟩

end Renders

theorem of_mem_opened {engine : Engine} {inner outer : Level} (h : inner ∈ engine.opened outer)
    : ∃ turn ∈ outer.scan.turns,
        (∃ inverted name, turn.step.action = .enter inverted name inner.text
            ∧ inner.origin = outer.origin)
          ∨ ∃ name, turn.step.action = .insert name ∧ inner.origin = some name
            ∧ engine.resolver.Loads name inner.text := by
  unfold opened at h
  rw [List.mem_flatMap] at h
  rcases h with ⟨turn, hturn, h⟩
  rw [List.mem_map] at h
  rcases h with ⟨⟨stack, text⟩, htext, rfl⟩
  refine ⟨turn, hturn, ?_⟩
  unfold texts at htext
  unfold Level.inner
  split at htext
  . next inverted name body haction =>
    split at htext
    . rw [List.mem_map] at htext
      rcases htext with ⟨_, _, heq⟩
      injection heq with _ hbody
      rw [haction, ← hbody]
      exact .inl ⟨inverted, name, rfl, rfl⟩
    . contradiction
  . next name haction =>
    split at htext
    . next answer hanswer =>
      rw [List.mem_map] at htext
      rcases htext with ⟨content, hcontent, heq⟩
      injection heq with _ htext
      rw [Option.mem_toList, htext] at hcontent
      rw [haction]
      exact .inr ⟨name, rfl, rfl, answer, hanswer, hcontent⟩
    . contradiction
  . contradiction

end Engine

namespace Level

/-- The text of a level stands in the partial that it belongs to. -/
def Belongs (resolver : Resolver) (level : Level) : Prop :=
  ∀ name, level.origin = some name → ∃ content, resolver.Loads name content ∧ level.text <:+: content

theorem Belongs.of_mem_opened {engine : Engine} {inner outer : Level} (h : outer.Belongs engine.resolver)
    (hinner : inner ∈ engine.opened outer)
    : inner.Belongs engine.resolver := by
  intro origin horigin
  rcases Engine.of_mem_opened hinner with ⟨turn, hturn, hbody | ⟨name, _, hname, hloads⟩⟩
  . rcases hbody with ⟨_, _, haction, hsame⟩
    rcases h origin (hsame.symm.trans horigin) with ⟨content, hloads, htext⟩
    exact ⟨content, hloads, (Step.infix_of_next? (Scan.next?_of_mem hturn) haction).trans htext⟩
  . rw [hname] at horigin
    injection horigin with horigin
    rw [← horigin]
    exact ⟨inner.text, hloads, List.infix_refl _⟩

end Level

section

variable {α : Type*} [LT α]

/--
Each partial that can be loaded has a higher rank than all partials that can be loaded and have their
names written in it.
-/
def Resolver.Ranked (resolver : Resolver) (rank : Bytes → α) : Prop :=
  ∀ outer content name, resolver.Loads outer content → (∃ inserted, resolver.Loads name inserted) →
    name <:+: content → rank name < rank outer

/-- All turns of a level move on in its text, and all texts that it opens are smaller. -/
structure Level.Progresses (resolver : Resolver) (rank : Bytes → α) (level : Level) : Prop where
  marks : ∀ turn ∈ level.scan.turns, turn.step.delims.opening ≠ [] ∧ turn.step.delims.closing ≠ []
    ∧ turn.step.next.opening ≠ [] ∧ turn.step.next.closing ≠ []
  offset : ∀ turn ∈ level.scan.turns, turn.pos < turn.resume ∧ turn.resume ≤ level.text.length
  body : ∀ turn ∈ level.scan.turns, ∀ inverted name body,
    turn.step.action = .enter inverted name body → body.length < level.text.length
  content : ∀ turn ∈ level.scan.turns, ∀ name content,
    turn.step.action = .insert name → resolver.Loads name content →
      ∀ includer, level.origin = some includer → rank name < rank includer

namespace Level

variable {engine : Engine} {rank : Bytes → α} {level inner : Level}

theorem Belongs.progresses {resolver : Resolver} (h : level.Belongs resolver)
    (hrank : resolver.Ranked rank)
    : level.Progresses resolver rank where
  marks turn _ := ⟨turn.step.delims.opening_ne_nil, turn.step.delims.closing_ne_nil,
    turn.step.next.opening_ne_nil, turn.step.next.closing_ne_nil⟩
  offset _ hturn := Step.next?_resume (Scan.next?_of_mem hturn)
  body turn hturn _ _ _ haction := by
    have := Step.next?_body (Scan.next?_of_mem hturn) haction
    omega
  content turn hturn name content haction hloads includer horigin := by
    rcases h includer horigin with ⟨outer, houter, htext⟩
    have hname : name <:+: level.text :=
      Step.name_infix_of_next? (Scan.next?_of_mem hturn) (by rw [haction]; rfl)
    exact hrank includer outer name houter ⟨content, hloads⟩ (hname.trans htext)

/-- What a level has before it: first of all its partial, and the template comes above all partials. -/
def measure (rank : Bytes → α) (level : Level) : WithTop α ×ₗ Nat :=
  toLex (level.origin.elim ⊤ fun name => ↑(rank name), level.text.length)

theorem Progresses.measure_lt (h : level.Progresses engine.resolver rank)
    (hinner : inner ∈ engine.opened level)
    : inner.measure rank < level.measure rank := by
  unfold measure
  rw [Prod.Lex.toLex_lt_toLex]
  rcases Engine.of_mem_opened hinner with ⟨turn, hturn, hbody | ⟨name, haction, hname, hloads⟩⟩
  . rcases hbody with ⟨_, _, haction, hsame⟩
    right
    rw [hsame]
    exact ⟨rfl, h.body turn hturn _ _ _ haction⟩
  . left
    rw [hname]
    cases horigin : level.origin with
    | none => exact WithTop.coe_lt_top _
    | some includer =>
      have := h.content turn hturn name _ haction hloads includer horigin
      exact WithTop.coe_lt_coe.mpr this

theorem acc_of_ranked [WellFoundedLT α] (hrank : engine.resolver.Ranked rank) (level : Level)
    (hbelongs : level.Belongs engine.resolver)
    : Acc (fun inner outer => inner ∈ engine.opened outer) level := by
  constructor
  intro inner hinner
  exact acc_of_ranked hrank inner (hbelongs.of_mem_opened hinner)
termination_by level.measure rank
decreasing_by
  exact (hbelongs.progresses hrank).measure_lt hinner

end Level

end

namespace Engine

theorem length_le_of_isChain {engine : Engine} (level : Level) (levels : List Level)
    (hloads : ∀ name content, ¬ engine.resolver.Loads name content)
    (h : (level :: levels).IsChain fun outer inner => inner ∈ engine.opened outer)
    : (level :: levels).length ≤ level.text.length + 1 := by
  induction levels generalizing level with
  | nil => simp
  | cons inner levels ih =>
    rw [List.isChain_cons_cons] at h
    have hrest := ih inner h.2
    -- A body is shorter than the text around it, and without partials a level is that of a body.
    rcases of_mem_opened h.1 with ⟨turn, hturn, ⟨_, _, haction, _⟩ | ⟨name, _, _, hload⟩⟩
    . have := Step.next?_body (Scan.next?_of_mem hturn) haction
      rw [List.length_cons]
      omega
    . exact absurd hload (hloads name inner.text)

/--
Where partials have ranks, every template renders: there is one run that all bounds on how deep partials
are nested give, if they are high enough, and lower ones cut it off. All levels of the render progress,
and without partials there are at most as many of them inside each other as the template has bytes, and
one more.
-/
theorem renders_of_ranked {α : Type*} [LT α] [WellFoundedLT α] (engine : Engine) (rank : Bytes → α)
    (hrank : engine.resolver.Ranked rank) (stack : Stack) (delims : Delimiters) (template : Bytes)
    : let root : Level := ⟨none, stack, delims, template⟩
      let opens (outer inner : Level) := inner ∈ engine.opened outer
      (∃! run, engine.Renders root run)
        ∧ (∀ run, engine.Renders root run →
            (∃ least, ∀ depth ≥ least, engine.process depth stack delims template = run)
              ∧ ∀ depth, (engine.process depth stack delims template).Cuts run)
        ∧ (∀ level, Relation.ReflTransGen opens root level → level.Progresses engine.resolver rank)
        ∧ ((∀ name content, ¬ engine.resolver.Loads name content) →
            ∀ levels, (root :: levels).IsChain opens →
              (root :: levels).length ≤ template.length + 1) := by
  intro root opens
  have hroot : root.Belongs engine.resolver := by
    intro _ horigin
    contradiction
  refine ⟨?_, ?_, ?_, ?_⟩
  . rcases Renders.of_acc (root.acc_of_ranked hrank hroot) with ⟨run, hrun⟩
    exact ⟨run, hrun, fun _ h => h.unique hrun⟩
  . intro run hrun
    exact ⟨Filter.eventually_atTop.mp hrun.eventually, hrun.cuts⟩
  . intro level hlevel
    have hbelongs : level.Belongs engine.resolver := by
      induction hlevel with
      | refl => exact hroot
      | tail _ hinner ih => exact ih.of_mem_opened hinner
    exact hbelongs.progresses hrank
  . intro hloads levels hchain
    exact length_le_of_isChain root levels hloads hchain

theorem renders_of_ranked_nested_partials
    : let engine : Engine :=
        ⟨id, .ofTable [(Bytes.ofAscii "a", Bytes.ofAscii "x{{>b}}"),
          (Bytes.ofAscii "b", Bytes.ofAscii "y")]⟩
      let rank (name : Bytes) : Nat := if name = Bytes.ofAscii "a" then 1 else 0
      let template := Bytes.ofAscii "{{^s}}{{>a}}{{/s}}{{>b}}"
      engine.resolver.Ranked rank
        ∧ ∃ run, engine.Renders ⟨none, [Context.empty], .standard, template⟩ run
          ∧ run.failure = none ∧ run.output = Bytes.ofAscii "xyy" := by
  intro engine rank template
  have hrank : engine.resolver.Ranked rank := by
    rintro outer content name houter ⟨inserted, hname⟩ hwritten
    have houter := Resolver.mem_of_loads houter
    have hname := Resolver.mem_of_loads hname
    simp only [List.mem_cons, List.not_mem_nil, or_false, Prod.mk.injEq] at houter hname
    rcases houter with ⟨rfl, rfl⟩ | ⟨rfl, rfl⟩ <;> rcases hname with ⟨rfl, _⟩ | ⟨rfl, _⟩
    all_goals
      revert hwritten
      decide +kernel
  have hrenders := renders_of_ranked engine rank hrank [Context.empty] .standard template
  rcases hrenders.1.exists with ⟨run, hrun⟩
  have hfailure : (engine.process 3 [Context.empty] .standard template).failure = none := by decide +kernel
  refine ⟨hrank, run, hrun, ?_⟩
  rcases (hrenders.2.1 run hrun).2 3 with heq | ⟨hdeep, _⟩
  . rw [← heq]
    exact ⟨hfailure, by decide +kernel⟩
  . rw [hfailure] at hdeep
    contradiction

end Engine

end Mustache
