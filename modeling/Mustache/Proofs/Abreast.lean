import Mustache.Proofs.Command
import Mustache.Proofs.Offset
import Mustache.Proofs.Step
import Mustache.Proofs.Visit

/-!
This module contains a render and the linter side by side. The renderer skips white space that the linter
goes through, the newline at the start of a body among it. If no opening mark begins with white space, no
tag begins there, and both have the same tags ahead.
-/

namespace Mustache

namespace Bytes

def IsWhite (b : UInt8) : Prop :=
  isBlank b = true ∨ b = newline

theorem isWhite_of_isBlankRest {bytes : Bytes} (h : IsBlankRest bytes) : ∀ b ∈ bytes, IsWhite b := by
  intro b hb
  rcases h with rfl | ⟨blanks, hblanks, rfl⟩
  . contradiction
  . rw [List.mem_append, List.mem_singleton] at hb
    cases hb with
    | inl hb => exact .inl (hblanks b hb)
    | inr hb => exact .inr hb

theorem isWhite_of_isBreak {bytes : Bytes} (h : IsBreak bytes) : ∀ b ∈ bytes, IsWhite b := by
  intro b hb
  rcases h with rfl | rfl
  . contradiction
  . exact .inr (List.mem_singleton.mp hb)

theorem drop_slice (text : Bytes) (start stop count : Nat)
    : (slice text start stop).drop count = slice text (start + count) stop := by
  unfold slice
  rw [List.drop_take, List.drop_drop, Nat.sub_add_eq]

theorem take_slice_prefix (text : Bytes) {start stop stop' count : Nat} (h : start + count ≤ stop')
    : (slice text start stop).take count <+: slice text start stop' := by
  unfold slice
  rw [List.take_take]
  apply List.take_prefix_take_left
  omega

end Bytes

namespace Delimiters

/-- The opening mark does not begin with white space. -/
def Visible (delims : Delimiters) : Prop :=
  ∀ b ∈ delims.opening.head?, ¬ Bytes.IsWhite b

theorem visible_standard : standard.Visible := by
  intro b hb
  rw [← Option.some.inj hb]
  unfold Bytes.IsWhite
  decide

theorem visible_of_ofCommand? {body : Bytes} {new : Delimiters} (h : ofCommand? body = some new)
    (hnewline : new.opening.head? ≠ some Bytes.newline)
    : new.Visible := by
  rcases ofCommand?_eq_some h with ⟨_, _, _, _, _, hblank, _⟩
  intro b hb hwhite
  cases hwhite with
  | inl hwhite =>
    rw [hblank b hb] at hwhite
    contradiction
  | inr hwhite =>
    rw [hwhite] at hb
    exact hnewline hb

theorem Visible.avoids {delims : Delimiters} (h : delims.Visible) {text : Bytes} {start stop : Nat}
    (hstop : stop ≤ text.length) (hwhite : ∀ b ∈ Bytes.slice text start stop, Bytes.IsWhite b)
    : Bytes.Avoids delims.opening (text.drop start) (stop - start) := by
  rcases Marks.opening_eq_cons delims with ⟨b, rest, hopening⟩
  have hb : b ∉ Bytes.slice text start stop := by
    intro hb
    apply h b
    . rw [hopening]
      rfl
    . exact hwhite b hb
  have hlength : stop - start = (Bytes.slice text start stop).length := by
    unfold Bytes.slice
    rw [List.length_take, List.length_drop]
    omega
  have hsplit : text.drop start = Bytes.slice text start stop ++ (text.drop start).drop (stop - start) := by
    unfold Bytes.slice
    rw [List.take_append_drop]
  rw [hopening, hlength, hsplit]
  apply Bytes.avoids_of_not_mem
  exact hb

theorem Visible.skipNewline_le {delims : Delimiters} (h : delims.Visible) {text name : Bytes} {pos : Nat}
    {closing : Span} (hclosing : Tag.findClosing? text delims.toMarks name pos = some closing)
    : Bytes.skipNewline text pos ≤ closing.start := by
  have hbounds := Tag.findClosing?_bounds hclosing
  unfold Bytes.skipNewline
  split
  . next hnewline =>
    cases Nat.lt_or_eq_of_le hbounds.1 with
    | inl hlt => exact hlt
    | inr heq =>
      -- The closing tag would begin with the newline, and it begins with the opening mark.
      rcases Marks.opening_eq_cons delims with ⟨b, rest, hopening⟩
      rcases (Tag.findClosing?_first hclosing).1 with ⟨after, hafter⟩
      rw [← heq] at hafter
      have hhead := congrArg List.head? hafter
      rw [List.head?_drop, hnewline] at hhead
      unfold Tag.closing at hhead
      rw [hopening] at hhead
      injection hhead with hhead
      apply (h b _ (.inr hhead)).elim
      rw [hopening]
      rfl
  . exact hbounds.1

end Delimiters

namespace Lint

/-- The delimiters that the commands of a template set, as far as the linter meets them. -/
def introduced (template : Bytes) : List Delimiters :=
  (tour template).filterMap fun visit => visit.tag?.bind Visit.command?

/--
A render at `pos` of `text` and the linter at `visit` have the same tags ahead: `text` is what is left of
the text of the visit after `count` bytes, and the two are apart by white space only.
-/
structure Abreast (text : Bytes) (delims : Delimiters) (pos : Nat) (visit : Visit) (count : Nat) : Prop where
  delims_eq : visit.delims = delims
  count_le : count ≤ visit.text.length
  drop : visit.text.drop count = text
  pos_le : visit.pos ≤ count + pos
  pos_le_length : pos ≤ text.length
  white : ∀ b ∈ Bytes.slice visit.text visit.pos (count + pos), Bytes.IsWhite b
  visible : delims.Visible
  commands : ∀ later ∈ visits visit, ∀ tag new, later.tag? = some tag →
    Visit.command? tag = some new → new.opening.head? ≠ some Bytes.newline

namespace Abreast

variable {text : Bytes} {delims : Delimiters} {pos count : Nat} {visit : Visit} {tag : Tag} {step : Step}

theorem tag?_eq (h : Abreast text delims pos visit count)
    : visit.tag? = (Tag.find? text delims.toMarks pos).map (Tag.shift count) := by
  have hlength := congrArg List.length h.drop
  rw [List.length_drop] at hlength
  have hcount := h.count_le
  have hpos := h.pos_le_length
  have havoids := h.visible.avoids (by omega) h.white
  have hadd := Tag.find?_add delims.toMarks pos h.count_le
  rw [h.drop] at hadd
  unfold Visit.tag?
  rw [h.delims_eq, ← Tag.find?_add_of_avoids havoids, Nat.add_sub_cancel' h.pos_le, hadd]

theorem closing?_eq (h : Abreast text delims pos visit count)
    (hsection : tag.sigil = Step.hash ∨ tag.sigil = Step.caret)
    : visit.closing? (tag.shift count)
        =
      (Tag.findClosing? text delims.toMarks (tag.body.drop 1) tag.stop).map (Span.shift count) := by
  have hadd := Tag.findClosing?_add delims.toMarks (tag.body.drop 1) tag.stop h.count_le
  rw [h.drop] at hadd
  rw [Visit.closing?_of_section]
  . rw [h.delims_eq]
    exact hadd
  . exact hsection

theorem tag?_of_next? (h : Abreast text delims pos visit count)
    (hstep : Step.next? text delims pos = some step)
    : visit.tag? = some (step.tag.shift count) := by
  rw [h.tag?_eq, (Step.next?_eq_some hstep).1]
  rfl

theorem step_of_tag? (h : Abreast text delims pos visit count) (htag : visit.tag? = some tag)
    : ∃ step, Step.next? text delims pos = some step ∧ step.tag.shift count = tag := by
  rw [h.tag?_eq, Option.map_eq_some_iff] at htag
  rcases htag with ⟨found, hfound, rfl⟩
  refine ⟨Step.ofTag text delims found, ?_, ?_⟩
  . unfold Step.next?
    rw [hfound]
    rfl
  . rw [Step.ofTag_tag]

theorem advance {next : Delimiters} {visit' : Visit} {stop resume : Nat}
    (h : Abreast text delims pos visit count) (htext : visit'.text = visit.text)
    (hdelims : visit'.delims = next) (hpos : visit'.pos = count + stop) (hstop : stop ≤ resume)
    (hresume : resume ≤ text.length) (hwhite : ∀ b ∈ Bytes.slice text stop resume, Bytes.IsWhite b)
    (hvisible : next.Visible) (hlater : visits visit' ⊆ visits visit)
    : Abreast text next resume visit' count where
  delims_eq := hdelims
  count_le := by
    rw [htext]
    exact h.count_le
  drop := by
    rw [htext]
    exact h.drop
  pos_le := by omega
  pos_le_length := hresume
  white := by
    rw [htext, hpos, Bytes.slice_add, h.drop]
    exact hwhite
  visible := hvisible
  commands := by
    intro later hmem
    exact h.commands later (hlater hmem)

theorem goOn (h : Abreast text delims pos visit count) (hstep : Step.next? text delims pos = some step)
    (hclosing : visit.closing? (step.tag.shift count) = none)
    (hnext : (Visit.command? step.tag).getD delims = step.next) (hvisible : step.next.Visible)
    (hwhite : ∀ b ∈ Bytes.slice text step.tag.stop step.resume, Bytes.IsWhite b)
    : Abreast text step.next step.resume (visit.after (step.tag.shift count)) count := by
  have hbounds := Step.next?_bounds hstep
  have hlater := visits_after_subset (h.tag?_of_next? hstep)
  rw [Visit.after_of_open hclosing] at hlater ⊢
  apply h.advance
  . rfl
  . rw [← hnext, ← h.delims_eq]
    rfl
  . rfl
  . exact hbounds.2.2.1
  . exact hbounds.2.2.2
  . exact hwhite
  . exact hvisible
  . exact hlater

theorem leave {closing : Span} (h : Abreast text delims pos visit count)
    (hstep : Step.next? text delims pos = some step)
    (hclosing : visit.closing? (step.tag.shift count) = some (closing.shift count))
    (hnext : step.next = delims) (hstop : closing.stop ≤ step.resume)
    (hwhite : ∀ b ∈ Bytes.slice text closing.stop step.resume, Bytes.IsWhite b)
    : Abreast text step.next step.resume (visit.after (step.tag.shift count)) count := by
  have hbounds := Step.next?_bounds hstep
  have hlater := visits_after_subset (h.tag?_of_next? hstep)
  rw [Visit.after_of_closed hclosing] at hlater ⊢
  apply h.advance
  . rfl
  . rw [hnext, ← h.delims_eq]
    rfl
  . rfl
  . exact hstop
  . exact hbounds.2.2.2
  . exact hwhite
  . rw [hnext]
    exact h.visible
  . exact hlater

theorem resume_of_section (h : Abreast text delims pos visit count)
    (hstep : Step.next? text delims pos = some step)
    (hsection : step.tag.sigil = Step.hash ∨ step.tag.sigil = Step.caret)
    : Abreast text step.next step.resume (visit.after (step.tag.shift count)) count := by
  have hofTag := Step.next?_of_section hstep hsection
  have hclosing? := h.closing?_eq hsection
  unfold Step.ofSection at hofTag
  dsimp only at hofTag
  split at hofTag
  . next hnone =>
    rw [hnone] at hclosing?
    have hresume : step.resume = step.tag.stop := by rw [hofTag]
    have hnext : step.next = delims := by rw [hofTag]
    apply h.goOn hstep hclosing?
    . rw [Visit.command?_of_section hsection, hnext]
      rfl
    . rw [hnext]
      exact h.visible
    . simp [hresume, Bytes.slice]
  . next closing hsome =>
    rw [hsome] at hclosing?
    have hafter := Bytes.le_skipNewline text closing.stop
    have hresume : step.resume = closing.stop ∨ step.resume = Bytes.skipNewline text closing.stop := by
      rw [hofTag]
      dsimp only
      split
      . exact .inr rfl
      . exact .inl rfl
    apply h.leave hstep hclosing?
    . rw [hofTag]
    . omega
    . rcases hresume with hresume | hresume
      . simp [hresume, Bytes.slice]
      . rw [hresume]
        exact Bytes.isWhite_of_isBreak (Bytes.isBreak_slice_skipNewline text closing.stop)

theorem resume_of_command (h : Abreast text delims pos visit count)
    (hstep : Step.next? text delims pos = some step) (hcommand : step.tag.sigil = Delimiters.equals)
    : Abreast text step.next step.resume (visit.after (step.tag.shift count)) count := by
  have hofTag := (Step.next?_eq_some hstep).2
  have hread : Visit.command? step.tag = Delimiters.ofCommand? step.tag.body := if_pos hcommand
  have hclosing? : visit.closing? (step.tag.shift count) = none := by
    apply Visit.closing?_of_not_section
    rw [Tag.shift_sigil, hcommand]
    decide
  rw [Step.ofTag_of_command text delims hcommand] at hofTag
  split at hofTag
  . next hnone =>
    have hresume : step.resume = step.tag.stop := by rw [hofTag]
    have hnext : step.next = delims := by rw [hofTag]
    apply h.goOn hstep hclosing?
    . rw [hread, hnone, hnext]
      rfl
    . rw [hnext]
      exact h.visible
    . simp [hresume, Bytes.slice]
  . next new hnew =>
    have hresume : step.resume = Bytes.skipLine text step.tag.stop := by rw [hofTag]
    have hnext : step.next = new := by rw [hofTag]
    apply h.goOn hstep hclosing?
    . rw [hread, hnew, hnext]
      rfl
    . rw [hnext]
      apply Delimiters.visible_of_ofCommand? hnew
      exact h.commands visit (mem_visits visit) _ new (h.tag?_of_next? hstep) (hread.trans hnew)
    . rw [hresume]
      exact Bytes.isWhite_of_isBlankRest (Bytes.isBlankRest_slice_skipLine text step.tag.stop)

theorem resume_of_other (h : Abreast text delims pos visit count)
    (hstep : Step.next? text delims pos = some step)
    (hsection : ¬ (step.tag.sigil = Step.hash ∨ step.tag.sigil = Step.caret))
    (hcommand : step.tag.sigil ≠ Delimiters.equals)
    : Abreast text step.next step.resume (visit.after (step.tag.shift count)) count := by
  have hother := Step.ofTag_of_other text delims hsection hcommand
  rw [← (Step.next?_eq_some hstep).2] at hother
  apply h.goOn hstep (visit.closing?_of_not_section hsection)
  . unfold Visit.command?
    rw [if_neg hcommand, hother.1]
    rfl
  . rw [hother.1]
    exact h.visible
  . rcases hother.2.1 with hresume | hresume
    . simp [hresume, Bytes.slice]
    . rw [hresume]
      exact Bytes.isWhite_of_isBlankRest (Bytes.isBlankRest_slice_skipLine text step.tag.stop)

theorem resume (h : Abreast text delims pos visit count) (hstep : Step.next? text delims pos = some step)
    : Abreast text step.next step.resume (visit.after (step.tag.shift count)) count := by
  cases Decidable.em (step.tag.sigil = Step.hash ∨ step.tag.sigil = Step.caret) with
  | inl hsection => exact h.resume_of_section hstep hsection
  | inr hsection =>
    cases Decidable.em (step.tag.sigil = Delimiters.equals) with
    | inl hcommand => exact h.resume_of_command hstep hcommand
    | inr hcommand => exact h.resume_of_other hstep hsection hcommand

/-- In the body of a section, a render is ahead of the linter by the newline that the body begins with. -/
theorem enter {inverted : Bool} {name body : Bytes} (h : Abreast text delims pos visit count)
    (hstep : Step.next? text delims pos = some step) (haction : step.action = .enter inverted name body)
    : ∃ closing, visit.closing? (step.tag.shift count) = some closing
        ∧ Abreast body delims 0 (visit.enter (step.tag.shift count) closing)
            (Bytes.skipNewline text step.tag.stop - step.tag.stop) := by
  rcases Step.next?_enter hstep haction with ⟨closing, hclosing, hbody⟩
  have hsection := Step.next?_section? hstep (Step.section?_of_enter haction)
  have hclosing? := h.closing?_eq hsection.1
  rw [← hsection.2, hclosing] at hclosing?
  have hle := Bytes.le_skipNewline text step.tag.stop
  have hskip := h.visible.skipNewline_le hclosing
  have hbounds := Tag.findClosing?_bounds hclosing
  have htext : (visit.enter (step.tag.shift count) (closing.shift count)).text
      = Bytes.slice text step.tag.stop closing.start := by
    rw [← h.drop, ← Bytes.slice_add]
    rfl
  refine ⟨closing.shift count, hclosing?, ?_⟩
  exact {
    delims_eq := h.delims_eq
    count_le := by
      rw [htext]
      unfold Bytes.slice
      rw [List.length_take, List.length_drop]
      omega
    drop := by rw [htext, Bytes.drop_slice, Nat.add_sub_cancel' hle, hbody]
    pos_le := Nat.zero_le _
    pos_le_length := Nat.zero_le _
    -- What the linter has ahead here is the newline at most, as `pos` is 0 in the body.
    white := by
      intro b hb
      apply Bytes.isWhite_of_isBreak (Bytes.isBreak_slice_skipNewline text step.tag.stop)
      rw [htext] at hb
      apply (Bytes.take_slice_prefix text _).subset hb
      omega
    visible := h.visible
    commands := by
      intro later hlater
      apply h.commands
      exact visits_enter_subset (h.tag?_of_next? hstep) hclosing? hlater
  }

end Abreast

theorem abreast_start {template : Bytes}
    (hopening : ∀ new ∈ introduced template, new.opening.head? ≠ some Bytes.newline)
    : Abreast template .standard 0 ⟨template, 0, .standard, [], 0⟩ 0 where
  delims_eq := rfl
  count_le := Nat.zero_le _
  drop := rfl
  pos_le := Nat.zero_le _
  pos_le_length := Nat.zero_le _
  white := by simp [Bytes.slice]
  visible := Delimiters.visible_standard
  commands := by
    intro visit hvisit tag new htag hnew
    apply hopening
    unfold introduced
    rw [List.mem_filterMap]
    refine ⟨visit, hvisit, ?_⟩
    rw [htag]
    exact hnew

end Lint

end Mustache
