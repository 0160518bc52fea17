import Mustache.Proofs.Command
import Mustache.Proofs.Invariant
import Mustache.Proofs.Step

/-!
This module contains what commands can do to the delimiters of a render. A command that is read sets delimiters
without spaces, and says in one way which ones; so there are never any others in effect.
-/

namespace Mustache

namespace Delimiters

namespace Change

variable {change change' : Change}

theorem takeWhile_inside (change : Change) : change.inside.takeWhile Bytes.isBlank = change.left := by
  have hhead := change.isBlank_head?_spaced
  have hlength := change.length_opening_pos
  unfold inside
  rw [List.append_assoc, List.takeWhile_append_of_pos change.isBlank_left]
  cases hspaced : change.spaced with
  | nil => simp [spaced] at hspaced
  | cons b rest =>
    rw [hspaced] at hhead
    simp [hhead b rfl]

theorem inside_injective : Function.Injective inside := by
  intro change change' h
  have hspaced : change.spaced = change'.spaced := by
    rw [← change.trim_inside, ← change'.trim_inside, h]
  have hleft : change.left = change'.left := by
    rw [← change.takeWhile_inside, ← change'.takeWhile_inside, h]
  have hright : change.right = change'.right := by
    unfold inside at h
    rwa [hspaced, hleft, List.append_cancel_left_eq] at h
  have hmarks := change.cutAt?_spaced
  rw [hspaced, change'.cutAt?_spaced, Option.some.injEq, Prod.mk.injEq] at hmarks
  rcases change with ⟨⟨⟨opening, closing⟩, _, _⟩, left, right, _⟩
  rcases change' with ⟨⟨⟨opening', closing'⟩, _, _⟩, left', right', _⟩
  simp_all

theorem body_injective : Function.Injective body := by
  intro change change' h
  unfold body at h
  rw [List.cons.injEq, List.append_cancel_right_eq] at h
  exact inside_injective h.2

end Change

theorem ofCommand?_equals_iff (rest : Bytes) (new : Delimiters)
    : ofCommand? (equals :: rest) = some new
        ↔
      ∃ change : Change, change.toDelimiters = new ∧ change.body = equals :: rest := by
  rw [ofCommand?_eq_some_iff]
  constructor
  . rintro ⟨sigil, change, hnew, hbody⟩
    rw [List.cons.injEq] at hbody
    refine ⟨change, hnew, ?_⟩
    rw [hbody.2]
    rfl
  . rintro ⟨change, hnew, hbody⟩
    exact ⟨equals, change, hnew, hbody.symm⟩

/-- Neither mark is empty or holds a space. -/
structure IsSpaceless (delims : Delimiters) : Prop where
  opening_ne_nil : delims.opening ≠ []
  closing_ne_nil : delims.closing ≠ []
  opening : Bytes.space ∉ delims.opening
  closing : Bytes.space ∉ delims.closing

theorem isSpaceless_standard : standard.IsSpaceless where
  opening_ne_nil := by decide
  closing_ne_nil := by decide
  opening := by decide
  closing := by decide

theorem Change.isSpaceless (change : Change) : change.IsSpaceless where
  opening_ne_nil := change.opening_ne_nil
  closing_ne_nil := change.closing_ne_nil
  opening := change.space_not_mem_opening
  closing := change.space_not_mem_closing

theorem isSpaceless_of_ofCommand? {body : Bytes} {new : Delimiters} (h : ofCommand? body = some new)
    : new.IsSpaceless := by
  rw [ofCommand?_eq_some_iff] at h
  rcases h with ⟨_, change, rfl, _⟩
  exact change.isSpaceless

end Delimiters

theorem Step.isSpaceless_next {text : Bytes} {delims : Delimiters} {pos : Nat} {step : Step}
    (h : next? text delims pos = some step) (hdelims : delims.IsSpaceless)
    : step.next.IsSpaceless := by
  rcases next?_eq_some h with ⟨_, hofTag⟩
  rw [hofTag]
  by_cases hsection : step.tag.sigil = hash ∨ step.tag.sigil = caret
  . rw [ofTag_of_section text delims hsection]
    unfold ofSection
    dsimp
    split <;> exact hdelims
  . by_cases hcommand : step.tag.sigil = Delimiters.equals
    . rw [ofTag_of_command text delims hcommand]
      split
      . exact hdelims
      . next new hnew => exact Delimiters.isSpaceless_of_ofCommand? hnew
    . rw [(ofTag_of_other text delims hsection hcommand).1]
      exact hdelims

/-- The delimiters that are in effect where the event is emitted, and right after it. -/
def Event.delimiters (event : Event) : List Delimiters :=
  match event with
  | step tagged => [tagged.delims, tagged.next]
  | tail delims _ => [delims]
  | _ => []

namespace Engine

theorem spaceless_invariant (engine : Engine) (seen : List Event)
    : engine.Invariant seen (fun _ => True) (fun _ delims _ => delims.IsSpaceless)
        fun event => ∀ delims ∈ event.delimiters, delims.IsSpaceless where
  tail hplace _ := by simpa [Event.delimiters] using hplace
  literal _ _ := by simp [Event.delimiters]
  step hplace hstep := by
    have hnext := Step.isSpaceless_next hstep hplace
    have hdelims := Step.next?_delims hstep
    simp [Event.delimiters, hdelims, hplace, hnext]
  resume hplace hstep := Step.isSpaceless_next hstep hplace
  print _ _ := by simp [Event.delimiters]
  call _ _ _ _ _ := by simp [Event.delimiters]
  enter hplace hstep _ _ _ _ := by
    rw [Step.next?_delims hstep]
    exact ⟨trivial, hplace⟩
  insert hplace hstep _ _ _ := by
    rw [Step.next?_delims hstep]
    simp [Event.delimiters, hplace]

end Engine

namespace Delimiters

/--
Exactly what is written as a command is read as one, in one way. All delimiters that are ever in effect in a
render of a template, in whatever section or partial, are therefore without spaces.
-/
theorem commands_exact
    : (∀ rest new, ofCommand? (equals :: rest) = some new
          ↔
        ∃ change : Change, change.toDelimiters = new ∧ change.body = equals :: rest)
        ∧ Function.Injective Change.body
        ∧ (∀ change : Change, ofCommand? change.body = some change.toDelimiters)
        ∧ ∀ (engine : Engine) (depth : Nat) (stack : Stack) (template : Bytes),
            ∀ event ∈ (engine.process depth stack .standard template).events,
              ∀ delims ∈ event.delimiters, delims.IsSpaceless := by
  refine ⟨?_, ?_, ?_, ?_⟩
  . exact ofCommand?_equals_iff
  . exact Change.body_injective
  . intro change
    unfold Change.body
    rw [ofCommand?_equals_iff]
    exact ⟨change, rfl, rfl⟩
  . intro engine depth stack template
    apply (Engine.spaceless_invariant engine _).process trivial
    exact isSpaceless_standard

/-- An equals sign may belong to a mark, though the command ends with one. -/
theorem commands_exact_equals_in_marks
    : let change : Change := {
        opening := Bytes.ofAscii "<="
        closing := Bytes.ofAscii "=="
        opening_ne_nil := by decide
        closing_ne_nil := by decide
        left := [Bytes.tab, Bytes.space]
        right := []
        isBlank_left := by decide +kernel
        isBlank_right := by decide +kernel
        space_not_mem_opening := by decide
        space_not_mem_closing := by decide
        head?_opening := by decide
        getLast?_closing := by decide
      }
      let resolver : Resolver := fun _ => .ok ⟨some (Bytes.ofAscii "<=x=="), none⟩
      let template := Bytes.ofAscii "\x7b\x7b=\t <= ===\x7d\x7d\n<=>p=="
      let run := Engine.process ⟨id, resolver⟩ 2 [] .standard template
      change.body = Bytes.ofAscii "=\t <= ==="
        ∧ ofCommand? change.body = some change.toDelimiters
        ∧ (∃ event ∈ run.events, change.toDelimiters ∈ event.delimiters)
        ∧ ∀ event ∈ run.events, ∀ delims ∈ event.delimiters, delims.IsSpaceless := by
  intro change resolver template run
  have hexact := commands_exact
  have hbody : change.body = Bytes.ofAscii "=\t <= ===" := by decide +kernel
  have hevent : ∃ event ∈ run.events, change.toDelimiters ∈ event.delimiters := by decide +kernel
  exact ⟨hbody, hexact.2.2.1 change, hevent, hexact.2.2.2 ⟨id, resolver⟩ 2 [] template⟩

end Delimiters

end Mustache
