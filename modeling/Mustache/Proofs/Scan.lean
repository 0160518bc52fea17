import Mathlib.Logic.ExistsUnique
import Mustache.Proofs.Walk

/-!
This module contains the scan of a text: the turns that a render of it takes, with their offsets and
delimiters. The scan is a function of the text and of the first delimiters, and every render that does
not fail takes exactly its turns. Literal text and turns together make up the text.
-/

namespace Mustache

structure Turn where
  pos : Nat
  step : Step

namespace Turn

def literal (turn : Turn) (text : Bytes) : Bytes :=
  Bytes.slice text turn.pos turn.step.tag.start

def taken (turn : Turn) (text : Bytes) : Bytes :=
  Bytes.slice text turn.step.tag.start turn.step.resume

def resume (turn : Turn) : Nat :=
  turn.step.resume

end Turn

/-- The turns of a text, the offset after the last one, and the delimiters then in effect. -/
structure Scan where
  turns : List Turn
  stop : Nat
  delims : Delimiters

namespace Scan

def ofText (text : Bytes) (delims : Delimiters) (pos : Nat) : Scan :=
  match _h : Step.next? text delims pos with
  | none => ⟨[], pos, delims⟩
  | some step =>
    let rest := ofText text step.next step.resume
    ⟨⟨pos, step⟩ :: rest.turns, rest.stop, rest.delims⟩
termination_by text.length - pos
decreasing_by
  have := Step.next?_resume _h
  omega

/-- The scan accounts for each byte of a text from `pos` on once, and for nothing else. -/
structure Covers (scan : Scan) (text : Bytes) (delims : Delimiters) (pos : Nat) : Prop where
  -- Each turn begins where the turn before it left off, and so do the delimiters.
  offsets : scan.turns.map Turn.pos ++ [scan.stop] = pos :: scan.turns.map Turn.resume
  increasing : (pos :: scan.turns.map Turn.resume).Pairwise (· < ·)
  stop_le : scan.stop ≤ text.length
  delimiters : scan.turns.map (fun turn => turn.step.delims) ++ [scan.delims]
    = delims :: scan.turns.map fun turn => turn.step.next
  leaves : ∀ turn ∈ scan.turns, turn.step.Leaves
  pieces : (scan.turns.flatMap fun turn => turn.literal text ++ turn.taken text)
    ++ text.drop scan.stop = text.drop pos
  within : ∀ turn ∈ scan.turns, turn.pos ≤ turn.step.tag.start
    ∧ turn.step.tag.start < turn.step.tag.stop
    ∧ turn.step.tag.stop ≤ turn.resume
  takes : ∀ turn ∈ scan.turns, turn.step.Takes (turn.taken text)

theorem ofText_of_none {text : Bytes} {delims : Delimiters} {pos : Nat}
    (h : Step.next? text delims pos = none)
    : ofText text delims pos = ⟨[], pos, delims⟩ := by
  rw [ofText]
  split
  . rfl
  . next hstep =>
    rw [h] at hstep
    contradiction

theorem ofText_of_some {text : Bytes} {delims : Delimiters} {pos : Nat} {step : Step}
    (h : Step.next? text delims pos = some step)
    : ofText text delims pos
        =
      ⟨⟨pos, step⟩ :: (ofText text step.next step.resume).turns,
        (ofText text step.next step.resume).stop,
        (ofText text step.next step.resume).delims⟩ := by
  rw [ofText]
  split
  . next hstep =>
    rw [h] at hstep
    contradiction
  . next found hstep =>
    rw [h] at hstep
    injection hstep with hstep
    rw [hstep]

theorem next?_of_mem {text : Bytes} {delims : Delimiters} {pos : Nat} {turn : Turn}
    (h : turn ∈ (ofText text delims pos).turns)
    : Step.next? text turn.step.delims turn.pos = some turn.step := by
  cases hstep : Step.next? text delims pos with
  | none =>
    rw [ofText_of_none hstep] at h
    contradiction
  | some step =>
    have := Step.next?_resume hstep
    rw [ofText_of_some hstep, List.mem_cons] at h
    cases h with
    | inl heq =>
      rw [heq]
      dsimp only
      rwa [Step.next?_delims hstep]
    | inr hmem => exact next?_of_mem hmem
termination_by text.length - pos

theorem le_pos_of_mem {text : Bytes} {delims : Delimiters} {pos : Nat} {turn : Turn}
    (h : turn ∈ (ofText text delims pos).turns)
    : pos ≤ turn.pos := by
  cases hstep : Step.next? text delims pos with
  | none =>
    rw [ofText_of_none hstep] at h
    contradiction
  | some step =>
    have := Step.next?_resume hstep
    rw [ofText_of_some hstep, List.mem_cons] at h
    cases h with
    | inl heq => simp [heq]
    | inr hmem =>
      have := le_pos_of_mem hmem
      omega
termination_by text.length - pos

theorem ofText_covers (text : Bytes) (delims : Delimiters) {pos : Nat} (hpos : pos ≤ text.length)
    : (ofText text delims pos).Covers text delims pos := by
  cases hstep : Step.next? text delims pos with
  | none =>
    rw [ofText_of_none hstep]
    exact {
      offsets := rfl
      increasing := by simp
      stop_le := hpos
      delimiters := rfl
      leaves := by simp
      pieces := rfl
      within := by simp
      takes := by simp
    }
  | some step =>
    have hbounds := Step.next?_bounds hstep
    have rest := ofText_covers text step.next hbounds.2.2.2
    rw [ofText_of_some hstep]
    exact {
      offsets := by
        rw [List.map_cons, List.map_cons, List.cons_append, rest.offsets]
        rfl
      increasing := by
        rw [List.map_cons, List.pairwise_cons]
        refine ⟨?_, rest.increasing⟩
        intro resume hresume
        have hfirst : pos < step.resume := by omega
        cases List.mem_cons.mp hresume with
        | inl heq =>
          rw [heq]
          exact hfirst
        | inr hmem =>
          have := List.rel_of_pairwise_cons rest.increasing hmem
          omega
      stop_le := rest.stop_le
      delimiters := by
        rw [List.map_cons, List.map_cons, List.cons_append, rest.delimiters, Step.next?_delims hstep]
      leaves := by
        rw [List.forall_mem_cons]
        exact ⟨Step.next?_leaves hstep, rest.leaves⟩
      pieces := by
        rw [List.flatMap_cons, List.append_assoc, rest.pieces]
        unfold Turn.literal Turn.taken
        dsimp
        rw [Bytes.slice_append_slice, Bytes.slice_append_drop] <;> omega
      within := by
        rw [List.forall_mem_cons]
        exact ⟨⟨hbounds.1, hbounds.2.1, hbounds.2.2.1⟩, rest.within⟩
      takes := by
        rw [List.forall_mem_cons]
        exact ⟨Step.next?_takes hstep, rest.takes⟩
    }
termination_by text.length - pos

end Scan

namespace Engine

theorem walk_eq_each (engine : Engine) (nested : Stack → Delimiters → Bytes → Run) (stack : Stack)
    (delims : Delimiters) (text : Bytes) (pos : Nat)
    : engine.walk nested stack delims text pos
        =
      (Run.each (Scan.ofText text delims pos).turns fun turn =>
        (Run.emit (.literal (turn.literal text))).andThen fun _ =>
          engine.turn stack (fun inner body => engine.walk nested inner turn.step.delims body 0)
            (nested stack turn.step.delims) turn.step).andThen fun _ =>
      .emit (.tail (Scan.ofText text delims pos).delims
        (text.drop (Scan.ofText text delims pos).stop)) := by
  cases hstep : Step.next? text delims pos with
  | none =>
    rw [walk_of_none engine nested stack hstep, Scan.ofText_of_none hstep]
    rw [Run.each_nil, Run.done_andThen]
  | some step =>
    have := Step.next?_resume hstep
    rw [walk_of_some engine nested stack hstep, Scan.ofText_of_some hstep]
    rw [walk_eq_each engine nested stack step.next text step.resume]
    rw [Run.each_cons, Run.andThen_assoc, Run.andThen_assoc]
    rfl
termination_by text.length - pos

def turnEvents (engine : Engine) (depth : Nat) (stack : Stack) (text : Bytes) (turn : Turn)
    : List Event :=
  .literal (turn.literal text) :: .step turn.step ::
    (engine.perform stack
      (fun inner body => engine.process (depth + 1) inner turn.step.delims body)
      (fun content => engine.process depth stack turn.step.delims content)
      turn.step.action).events

theorem events_of_ok {engine : Engine} {depth : Nat} {stack : Stack} {delims : Delimiters}
    {text : Bytes} (hok : (engine.process (depth + 1) stack delims text).failure = none)
    : (engine.process (depth + 1) stack delims text).events
        =
      (Scan.ofText text delims 0).turns.flatMap (engine.turnEvents depth stack text)
        ++ [.tail (Scan.ofText text delims 0).delims
            (text.drop (Scan.ofText text delims 0).stop)] := by
  rw [process_succ, walk_eq_each] at hok ⊢
  rw [Run.failure_andThen_eq_none_iff] at hok
  rw [Run.andThen_of_ok _ hok.1]
  rw [Run.failure_each_eq_none_iff] at hok
  rw [Run.events_each hok.1]
  congr

theorem walk_ok_of_nil (escape : Bytes → Bytes) (nested : Stack → Delimiters → Bytes → Run)
    (delims : Delimiters) (text : Bytes) (pos : Nat)
    : (walk ⟨escape, .none⟩ nested [] delims text pos).failure = none := by
  cases hstep : Step.next? text delims pos with
  | none =>
    rw [walk_of_none _ _ _ hstep]
    rfl
  | some step =>
    have := Step.next?_resume hstep
    rw [walk_of_some _ _ _ hstep]
    unfold turn
    simp only [Run.failure_andThen_eq_none_iff]
    refine ⟨rfl, ⟨rfl, ?_⟩, walk_ok_of_nil escape nested step.next text step.resume⟩
    cases haction : step.action with
    | enter inverted name body =>
      have := Step.next?_body hstep haction
      have hbody := walk_ok_of_nil escape nested step.delims body 0
      have hprobe : Stack.probe [] name = .ok none := by
        unfold Stack.probe
        cases ItemPath.ofName? name <;> rfl
      unfold perform enter Plan.ofSection
      dsimp
      rw [hprobe]
      cases inverted with
      | false => rfl
      | true =>
        change (Run.each [[]] _).failure = none
        rw [Run.failure_each_eq_none_iff]
        simp [hbody]
    | _ => rfl
termination_by text.length - pos

theorem turns_eq_of_events {engine : Engine} {depth : Nat} {stack : Stack} {text rest rest' : Bytes}
    {scan scan' : Scan} {pos : Nat}
    (hoffsets : scan.turns.map Turn.pos ++ [scan.stop] = pos :: scan.turns.map Turn.resume)
    (hoffsets' : scan'.turns.map Turn.pos ++ [scan'.stop] = pos :: scan'.turns.map Turn.resume)
    (hevents : scan.turns.flatMap (engine.turnEvents depth stack text) ++ [.tail scan.delims rest]
      = scan'.turns.flatMap (engine.turnEvents depth stack text) ++ [.tail scan'.delims rest'])
    : scan = scan' := by
  rcases scan with ⟨turns, stop, delims⟩
  rcases scan' with ⟨turns', stop', delims'⟩
  dsimp at hoffsets hoffsets' hevents
  induction turns generalizing turns' pos with
  | nil =>
    cases turns' with
    | nil => simp_all
    | cons => simp [turnEvents] at hevents
  | cons turn turns ih =>
    cases turns' with
    | nil => simp [turnEvents] at hevents
    | cons turn' turns' =>
      simp only [List.map_cons, List.cons_append, List.cons.injEq] at hoffsets hoffsets'
      have hstep : turn.step = turn'.step := by
        simp only [turnEvents, List.flatMap_cons, List.cons_append, List.cons.injEq,
          Event.step.injEq] at hevents
        exact hevents.2.1
      have hturn : turn = turn' := by
        rcases turn with ⟨start, step⟩
        rcases turn' with ⟨start', step'⟩
        simp_all
      subst hturn
      simp only [List.flatMap_cons, List.append_assoc, List.append_cancel_left_eq] at hevents
      have := ih hoffsets.2 turns' hoffsets'.2 hevents
      simp_all

/-- Every render of the text takes the turns of the scan, unless it fails. -/
def Follows (scan : Scan) (text : Bytes) (delims : Delimiters) : Prop :=
  ∀ (engine : Engine) (depth : Nat) (stack : Stack),
    (engine.process (depth + 1) stack delims text).failure = none →
      (engine.process (depth + 1) stack delims text).events
        =
      scan.turns.flatMap (engine.turnEvents depth stack text)
        ++ [.tail scan.delims (text.drop scan.stop)]

theorem existsUnique_scan (text : Bytes) (delims : Delimiters)
    : ∃! scan : Scan, scan.Covers text delims 0 ∧ Follows scan text delims := by
  have hcovers := Scan.ofText_covers text delims (Nat.zero_le _)
  refine ⟨Scan.ofText text delims 0, ⟨hcovers, ?_⟩, ?_⟩
  . intro engine depth stack hok
    exact events_of_ok hok
  . intro other hother
    -- A render without data and without partials cannot fail, and its events tell the turns.
    have hok : (process ⟨id, .none⟩ 1 [] delims text).failure = none :=
      walk_ok_of_nil id (process ⟨id, .none⟩ 0) delims text 0
    have hevents := hother.2 ⟨id, .none⟩ 0 [] hok
    rw [events_of_ok hok] at hevents
    exact turns_eq_of_events hother.1.offsets hcovers.offsets hevents.symm

end Engine

end Mustache
