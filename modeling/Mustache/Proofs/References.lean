import Mathlib.Data.List.Basic
import Mustache.Config.Substitution
import Mustache.Proofs.Cuts

/-!
This module contains the references to the environment in a text. They are found from the left, each in what
follows the one before it.
-/

namespace Mustache

open Alphabet

variable {κ : Type} [Alphabet κ]

/-- A reference in a text, with all that stands before it. -/
@[ext]
structure Reference (κ : Type) [Alphabet κ] where
  before : List κ
  name : List κ
  isNonempty : name ≠ []
  isClosed : ofChar '\x7d' ∉ name

namespace Reference

variable {ref : Reference κ} {after : List κ}

def text (ref : Reference κ) : List κ :=
  ref.before ++ ofChar '$' :: ofChar '\x7b' :: (ref.name ++ [ofChar '\x7d'])

/-- The same reference, with one more character before it. -/
def push (c : κ) (ref : Reference κ) : Reference κ :=
  { ref with before := c :: ref.before }

@[simp]
theorem push_name (c : κ) (ref : Reference κ) : (ref.push c).name = ref.name := by
  rfl

@[simp]
theorem push_before (c : κ) (ref : Reference κ) : (ref.push c).before = c :: ref.before := by
  rfl

theorem text_append (ref : Reference κ) (after : List κ)
    : ref.text ++ after = ref.before ++ ofChar '$' :: ofChar '\x7b' :: (ref.name ++ ofChar '\x7d' :: after) := by
  simp [Reference.text]

theorem text_append_of_before_eq_nil (h : ref.before = []) (after : List κ)
    : ref.text ++ after = ofChar '$' :: ofChar '\x7b' :: (ref.name ++ ofChar '\x7d' :: after) := by
  rw [text_append, h, List.nil_append]

theorem push_text_append (c : κ) (ref : Reference κ) (after : List κ)
    : (ref.push c).text ++ after = c :: (ref.text ++ after) := by
  simp [Reference.text]

theorem eq_push {c : κ} {before : List κ} (h : ref.before = c :: before)
    : ∃ inner : Reference κ, ref = inner.push c := by
  refine ⟨{ ref with before }, ?_⟩
  ext1
  . exact h
  . rfl

/--
Divides a text at its references: no reference starts to the left of the next one, and none is left in what follows
the last.
-/
inductive Divides : List κ → List (Reference κ) → List κ → Prop where
  | last {text : List κ} (h : ∀ (ref : Reference κ) after, text ≠ ref.text ++ after) : Divides text [] text
  | next {ref : Reference κ} {after rest : List κ} {refs : List (Reference κ)}
      (hfirst : ∀ (other : Reference κ) behind, ref.text ++ after = other.text ++ behind →
        ref.before.length ≤ other.before.length)
      (hrest : Divides after refs rest)
      : Divides (ref.text ++ after) (ref :: refs) rest

/-- The text with a value in the place of each reference. -/
def fill (refs : List (Reference κ)) (values : List (List κ)) (rest : List κ) : List κ :=
  (List.zipWith (fun ref value => ref.before ++ value) refs values).flatten ++ rest

theorem fill_nil (rest : List κ) : fill [] [] rest = rest := by
  rfl

theorem fill_cons (ref : Reference κ) (refs : List (Reference κ)) (value : List κ) (values : List (List κ))
    (rest : List κ)
    : fill (ref :: refs) (value :: values) rest = ref.before ++ value ++ fill refs values rest := by
  simp [fill]

variable [DecidableEq κ] {text : List κ}

theorem reference?_eq_some_iff {name : List κ}
    : reference? text = some (name, after)
        ↔
      text = ofChar '$' :: ofChar '\x7b' :: (name ++ ofChar '\x7d' :: after)
        ∧ name ≠ [] ∧ ofChar '\x7d' ∉ name := by
  unfold reference?
  constructor
  . intro h
    split at h
    . split at h
      . next hmarks =>
        rw [Option.filter_eq_some_iff, cutAt?_eq_some_iff] at h
        refine ⟨?_, of_decide_eq_true h.2, h.1.2⟩
        rw [hmarks.1, hmarks.2, h.1.1]
      . contradiction
    . contradiction
  . rintro ⟨rfl, hne, hclosed⟩
    simp [cutAt?_append hclosed, hne]

/-- The reference that a text begins with, and what follows it. -/
def atStart? (text : List κ) : Option (Reference κ × List κ) :=
  match hreference : reference? text with
  | none => none
  | some (name, after) =>
    have hname := (reference?_eq_some_iff.mp hreference).2
    some (⟨[], name, hname.1, hname.2⟩, after)

/-- The first reference of a text, and what follows it. -/
def first? : List κ → Option (Reference κ × List κ)
  | [] => none
  | c :: rest => (atStart? (c :: rest)).or ((first? rest).map fun cut => (cut.1.push c, cut.2))

theorem atStart?_of_reference?_eq_none (h : reference? text = none) : atStart? text = none := by
  unfold atStart?
  split
  . rfl
  . next hreference =>
    rw [h] at hreference
    contradiction

theorem atStart?_of_reference?_eq_some {name : List κ} (h : reference? text = some (name, after))
    : ∃ ref, atStart? text = some (ref, after) ∧ ref.before = [] ∧ ref.name = name := by
  unfold atStart?
  split
  . next hreference =>
    rw [h] at hreference
    contradiction
  . next hreference =>
    rw [h, Option.some.injEq, Prod.mk.injEq] at hreference
    rw [hreference.2]
    exact ⟨_, rfl, rfl, hreference.1.symm⟩

theorem atStart?_text_append (h : ref.before = []) (after : List κ)
    : atStart? (ref.text ++ after) = some (ref, after) := by
  have hreference : reference? (ref.text ++ after) = some (ref.name, after) :=
    reference?_eq_some_iff.mpr ⟨text_append_of_before_eq_nil h after, ref.isNonempty, ref.isClosed⟩
  rcases atStart?_of_reference?_eq_some hreference with ⟨found, hfound, hbefore, hname⟩
  have heq : found = ref := by
    ext1
    . rw [hbefore, h]
    . exact hname
  rw [hfound, heq]

theorem atStart?_eq_some (h : atStart? text = some (ref, after)) : ref.before = [] ∧ text = ref.text ++ after := by
  cases hreference : reference? text with
  | none =>
    rw [atStart?_of_reference?_eq_none hreference] at h
    contradiction
  | some cut =>
    rcases atStart?_of_reference?_eq_some hreference with ⟨found, hfound, hbefore, hname⟩
    rw [hfound, Option.some.injEq, Prod.mk.injEq] at h
    rw [← h.1, ← h.2]
    refine ⟨hbefore, ?_⟩
    rw [text_append_of_before_eq_nil hbefore, hname]
    exact (reference?_eq_some_iff.mp hreference).1

theorem before_ne_nil (h : atStart? (ref.text ++ after) = none) : ref.before ≠ [] := by
  intro hbefore
  rw [atStart?_text_append hbefore] at h
  contradiction

theorem first?_cons_eq_none_iff (c : κ) (rest : List κ)
    : first? (c :: rest) = none ↔ atStart? (c :: rest) = none ∧ first? rest = none := by
  rw [first?, Option.or_eq_none_iff, Option.map_eq_none_iff]

theorem first?_cons_eq_some {c : κ} {rest : List κ} (h : first? (c :: rest) = some (ref, after))
    : atStart? (c :: rest) = some (ref, after)
        ∨ (atStart? (c :: rest) = none
          ∧ ∃ inner, first? rest = some (inner, after) ∧ inner.push c = ref) := by
  rw [first?, Option.or_eq_some_iff] at h
  rcases h with hstart | ⟨hnone, hlater⟩
  . exact .inl hstart
  . rw [Option.map_eq_some_iff] at hlater
    rcases hlater with ⟨⟨inner, after'⟩, hinner, hpair⟩
    rw [Prod.mk.injEq] at hpair
    dsimp only at hpair
    rw [hpair.2] at hinner
    exact .inr ⟨hnone, inner, hinner, hpair.1⟩

theorem first?_eq_none (h : first? text = none) (ref : Reference κ) (after : List κ)
    : text ≠ ref.text ++ after := by
  intro htext
  induction text generalizing ref with
  | nil =>
    rw [text_append] at htext
    simp at htext
  | cons c rest ih =>
    rw [first?_cons_eq_none_iff, htext] at h
    cases hbefore : ref.before with
    | nil => exact before_ne_nil h.1 hbefore
    | cons c' before =>
      rcases eq_push hbefore with ⟨inner, rfl⟩
      rw [push_text_append, List.cons.injEq] at htext
      exact ih h.2 inner htext.2

theorem first?_eq_some (h : first? text = some (ref, after))
    : text = ref.text ++ after
        ∧ ∀ (other : Reference κ) behind, text = other.text ++ behind →
          ref.before.length ≤ other.before.length := by
  induction text generalizing ref with
  | nil => contradiction
  | cons c rest ih =>
    rcases first?_cons_eq_some h with hstart | ⟨hstart, inner, hinner, rfl⟩
    . rcases atStart?_eq_some hstart with ⟨hbefore, htext⟩
      refine ⟨htext, ?_⟩
      intros
      rw [hbefore]
      apply Nat.zero_le
    . rcases ih hinner with ⟨hrest, hfirst⟩
      refine ⟨?_, ?_⟩
      . rw [push_text_append, ← hrest]
      . -- Any other reference begins further right as well: here none does, and in the rest this is the first.
        intro other behind hother
        cases hbefore : other.before with
        | nil =>
          rw [hother] at hstart
          exact absurd hbefore (before_ne_nil hstart)
        | cons c' before =>
          rcases eq_push hbefore with ⟨otherInner, rfl⟩
          rw [push_text_append, List.cons.injEq] at hother
          rw [push_before, List.cons.injEq] at hbefore
          rw [push_before, List.length_cons, List.length_cons, ← hbefore.2]
          apply Nat.succ_le_succ
          exact hfirst otherInner behind hother.2

theorem length_of_first? (h : first? text = some (ref, after))
    : after.length < text.length := by
  rw [(first?_eq_some h).1, text_append]
  simp only [List.length_append, List.length_cons]
  omega

/-- The references of a text, each with what stands between it and the one before, and what follows the last. -/
def division (text : List κ) : List (Reference κ) × List κ :=
  match _hfirst : first? text with
  | none => ([], text)
  | some (ref, after) => (ref :: (division after).1, (division after).2)
termination_by text.length
decreasing_by all_goals exact length_of_first? _hfirst

theorem division_of_first?_eq_none (h : first? text = none) : division text = ([], text) := by
  unfold division
  split
  . rfl
  . next hfirst =>
    rw [h] at hfirst
    contradiction

theorem division_of_first?_eq_some (h : first? text = some (ref, after))
    : division text = (ref :: (division after).1, (division after).2) := by
  conv =>
    lhs
    unfold division
  split
  . next hfirst =>
    rw [h] at hfirst
    contradiction
  . next hfirst =>
    rw [h, Option.some.injEq, Prod.mk.injEq] at hfirst
    rw [hfirst.1, hfirst.2]

theorem divides_division (text : List κ) : Divides text (division text).1 (division text).2 := by
  cases hfirst : first? text with
  | none =>
    rw [division_of_first?_eq_none hfirst]
    apply Divides.last
    exact first?_eq_none hfirst
  | some cut =>
    rcases cut with ⟨ref, after⟩
    rw [division_of_first?_eq_some hfirst]
    have hlength := length_of_first? hfirst
    rcases first?_eq_some hfirst with ⟨rfl, hleft⟩
    apply Divides.next hleft
    exact divides_division after
termination_by text.length

/-- References that start at the same place of a text are the same, since the name ends at the first brace. -/
theorem eq_of_text_append_eq {other : Reference κ} {behind : List κ}
    (htext : ref.text ++ after = other.text ++ behind) (hlength : ref.before.length = other.before.length)
    : ref = other ∧ after = behind := by
  rw [text_append, text_append] at htext
  rcases List.append_inj htext hlength with ⟨hbefore, hrest⟩
  simp only [List.cons.injEq, true_and] at hrest
  have hcut := cutAt?_append ref.isClosed after
  rw [hrest, cutAt?_append other.isClosed, Option.some.injEq, Prod.mk.injEq] at hcut
  refine ⟨?_, hcut.2.symm⟩
  ext1
  . exact hbefore
  . exact hcut.1.symm

theorem Divides.unique {rest rest' : List κ} {refs refs' : List (Reference κ)}
    (h : Divides text refs rest) (h' : Divides text refs' rest')
    : refs = refs' ∧ rest = rest' := by
  induction h generalizing refs' with
  | last hnone =>
    cases h' with
    | last => exact ⟨rfl, rfl⟩
    | next => exact absurd rfl (hnone _ _)
  | @next ref after _ refs hfirst _ ih =>
    generalize htext : ref.text ++ after = text at h'
    cases h' with
    | last hnone => exact absurd htext.symm (hnone _ _)
    | next hfirst' hrest' =>
      have hlength := Nat.le_antisymm (hfirst _ _ htext) (hfirst' _ _ htext.symm)
      rcases eq_of_text_append_eq htext hlength with ⟨rfl, rfl⟩
      rcases ih hrest' with ⟨rfl, rfl⟩
      exact ⟨rfl, rfl⟩

theorem division_eq_iff (text rest : List κ) (refs : List (Reference κ))
    : division text = (refs, rest) ↔ Divides text refs rest := by
  constructor
  . intro h
    have hdivides := divides_division text
    rwa [h] at hdivides
  . intro h
    rcases (divides_division text).unique h with ⟨hrefs, hrest⟩
    rw [← hrefs, ← hrest]

end Reference

end Mustache
