import Mustache.Proofs.Find
import Mustache.Step

/-!
This module contains what a step keeps of the text and of the delimiters that it was found with.
-/

namespace Mustache

namespace Bytes

def IsBreak (bytes : Bytes) : Prop :=
  bytes = [] ∨ bytes = [newline]

/-- The blank rest of a line with the newline that ends it, or nothing. -/
def IsBlankRest (bytes : Bytes) : Prop :=
  bytes = [] ∨ ∃ blanks, (∀ b ∈ blanks, isBlank b = true) ∧ bytes = blanks ++ [newline]

theorem slice_succ_of_getElem? {text : Bytes} {pos : Nat} {b : UInt8} (h : text[pos]? = some b)
    : slice text pos (pos + 1) = [b] := by
  unfold slice
  rw [Nat.add_sub_cancel_left, List.take_one, List.head?_drop, h]
  rfl

theorem isBreak_slice_skipNewline (text : Bytes) (pos : Nat)
    : IsBreak (slice text pos (skipNewline text pos)) := by
  unfold skipNewline
  split
  . next hnewline =>
    right
    exact slice_succ_of_getElem? hnewline
  . left
    simp [slice]

theorem isBlankRest_slice_skipLine (text : Bytes) (pos : Nat)
    : IsBlankRest (slice text pos (skipLine text pos)) := by
  unfold skipLine
  dsimp
  split
  . next hnewline =>
    right
    refine ⟨(text.drop pos).takeWhile isBlank, ?_, ?_⟩
    . intro b hb
      exact List.all_eq_true.mp List.all_takeWhile b hb
    . have hsplit := @List.takeWhile_append_dropWhile _ isBlank (text.drop pos)
      rw [← slice_append_slice text (Nat.le_add_right _ _) (Nat.le_succ _)]
      rw [slice_eq_of_drop hsplit.symm, slice_succ_of_getElem? hnewline]
  . left
    simp [slice]

theorem slice_skipNewline_split (text : Bytes) {start stop : Nat} (h : start ≤ stop)
    : ∃ first, IsBreak first
        ∧ slice text start stop = first ++ slice text (skipNewline text start) stop := by
  cases Nat.lt_or_ge stop (skipNewline text start) with
  | inl hlt =>
    -- What comes next begins with the newline itself, so nothing is dropped.
    have : skipNewline text start ≤ start + 1 := by
      unfold skipNewline
      split <;> omega
    have : stop = start := by omega
    refine ⟨[], .inl rfl, ?_⟩
    simp [slice, this, Nat.sub_eq_zero_of_le (le_skipNewline text start)]
  | inr hge =>
    refine ⟨_, isBreak_slice_skipNewline text start, ?_⟩
    rw [slice_append_slice text (le_skipNewline text start) hge]

end Bytes

namespace Step

theorem ofSection_delims (text : Bytes) (delims : Delimiters) (tag : Tag) (inverted : Bool)
    : (ofSection text delims tag inverted).delims = delims := by
  unfold ofSection
  dsimp
  split <;> rfl

theorem ofTag_delims (text : Bytes) (delims : Delimiters) (tag : Tag)
    : (ofTag text delims tag).delims = delims := by
  unfold ofTag
  split
  . rfl
  split
  . rfl
  split
  . apply ofSection_delims
  split
  . apply ofSection_delims
  split
  . split <;> rfl
  split <;> rfl

theorem ofTag_of_section {tag : Tag} (text : Bytes) (delims : Delimiters)
    (h : tag.sigil = hash ∨ tag.sigil = caret)
    : ofTag text delims tag = ofSection text delims tag (tag.sigil = caret) := by
  have htriple : ∀ sigil, sigil = hash ∨ sigil = caret → Tag.isTriple delims.toMarks sigil = false := by
    intro sigil hsigil
    rcases hsigil with rfl | rfl <;> rfl
  unfold ofTag
  rw [htriple _ h]
  cases h with
  | inl h =>
    rw [h, if_neg (by decide), if_neg (by decide), if_pos rfl]
    rfl
  | inr h =>
    rw [h, if_neg (by decide), if_neg (by decide), if_neg (by decide), if_pos rfl]
    rfl

theorem ofTag_of_command {tag : Tag} (text : Bytes) (delims : Delimiters)
    (h : tag.sigil = Delimiters.equals)
    : ofTag text delims tag
        =
      match Delimiters.ofCommand? tag.body with
      | none => ⟨delims, tag, .badDelimiters tag.body, tag.stop, delims⟩
      | some new => ⟨delims, tag, .delimiters new, Bytes.skipLine text tag.stop, new⟩ := by
  have htriple : Tag.isTriple delims.toMarks Delimiters.equals = false := by rfl
  unfold ofTag
  rw [h, htriple, if_neg (by decide), if_neg (by decide), if_neg (by decide), if_neg (by decide)]
  exact if_pos rfl

/-- Tags other than sections and commands change nothing but the offset. -/
theorem ofTag_of_other {tag : Tag} (text : Bytes) (delims : Delimiters)
    (hsection : ¬ (tag.sigil = hash ∨ tag.sigil = caret)) (hcommand : tag.sigil ≠ Delimiters.equals)
    : (ofTag text delims tag).next = delims
        ∧ ((ofTag text delims tag).resume = tag.stop
          ∨ (ofTag text delims tag).resume = Bytes.skipLine text tag.stop)
        ∧ ∀ inverted name body, (ofTag text delims tag).action ≠ .enter inverted name body := by
  rw [not_or] at hsection
  unfold ofTag
  rw [if_neg hsection.1, if_neg hsection.2, if_neg hcommand]
  split
  . simp
  split
  . simp
  split <;> simp

theorem next?_eq_some {text : Bytes} {delims : Delimiters} {pos : Nat} {step : Step}
    (h : next? text delims pos = some step)
    : Tag.find? text delims.toMarks pos = some step.tag ∧ step = ofTag text delims step.tag := by
  unfold next? at h
  rw [Option.map_eq_some_iff] at h
  rcases h with ⟨tag, htag, rfl⟩
  rw [ofTag_tag]
  exact ⟨htag, rfl⟩

theorem next?_delims {text : Bytes} {delims : Delimiters} {pos : Nat} {step : Step}
    (h : next? text delims pos = some step)
    : step.delims = delims := by
  rw [(next?_eq_some h).2]
  apply ofTag_delims

/-- What a step takes from the text, from its tag on. -/
def Takes (step : Step) (taken : Bytes) : Prop :=
  let tag := step.tag.span step.delims.toMarks
  match step.action with
  | .enter _ name body =>
    ∃ first last, Bytes.IsBreak first ∧ Bytes.IsBreak last ∧ (last ≠ [] → Bytes.newline ∈ body)
      ∧ taken = tag ++ first ++ body ++ Tag.closing step.delims.toMarks name ++ last
  | .insert _ => ∃ line, Bytes.IsBlankRest line ∧ taken = tag ++ line
  | .delimiters _ => ∃ line, Bytes.IsBlankRest line ∧ taken = tag ++ line
  | _ => taken = tag

theorem ofSection_takes {text : Bytes} {delims : Delimiters} {tag : Tag} (inverted : Bool)
    (hle : tag.start ≤ tag.stop)
    (hspan : Bytes.slice text tag.start tag.stop = tag.span delims.toMarks)
    : (ofSection text delims tag inverted).Takes
        (Bytes.slice text tag.start (ofSection text delims tag inverted).resume) := by
  unfold ofSection
  dsimp
  split
  . exact hspan
  . next closing hclosing =>
    have hbounds := Tag.findClosing?_bounds hclosing
    have hafter := Bytes.le_skipNewline text closing.stop
    rcases Bytes.slice_skipNewline_split text hbounds.1 with ⟨first, hfirst, hbody⟩
    have hthrough : Bytes.slice text tag.start closing.stop
        = tag.span delims.toMarks ++ first
          ++ Bytes.slice text (Bytes.skipNewline text tag.stop) closing.start
          ++ Tag.closing delims.toMarks (tag.body.drop 1) := by
      rw [← hspan, ← Tag.slice_of_findClosing? hclosing, List.append_assoc _ first, ← hbody]
      rw [Bytes.slice_append_slice, Bytes.slice_append_slice] <;> omega
    unfold Takes
    dsimp
    split
    . next hnewline =>
      refine ⟨first, _, hfirst, Bytes.isBreak_slice_skipNewline text closing.stop, ?_, ?_⟩
      . intro _
        exact hnewline
      . rw [← hthrough, Bytes.slice_append_slice] <;> omega
    . refine ⟨first, [], hfirst, .inl rfl, ?_, ?_⟩
      . intro h
        exact absurd rfl h
      . rw [← hthrough, List.append_nil]

theorem ofTag_takes {text : Bytes} {delims : Delimiters} {tag : Tag} (hle : tag.start ≤ tag.stop)
    (hspan : Bytes.slice text tag.start tag.stop = tag.span delims.toMarks)
    : (ofTag text delims tag).Takes
        (Bytes.slice text tag.start (ofTag text delims tag).resume) := by
  have line : ∃ line, Bytes.IsBlankRest line
      ∧ Bytes.slice text tag.start (Bytes.skipLine text tag.stop)
          = tag.span delims.toMarks ++ line := by
    refine ⟨_, Bytes.isBlankRest_slice_skipLine text tag.stop, ?_⟩
    rw [← hspan, Bytes.slice_append_slice _ hle (Bytes.le_skipLine text tag.stop)]
  unfold ofTag
  split
  . exact hspan
  split
  . exact hspan
  split
  . exact ofSection_takes false hle hspan
  split
  . exact ofSection_takes true hle hspan
  split
  . split
    . exact hspan
    . exact line
  split
  . exact line
  . exact hspan

theorem next?_bounds {text : Bytes} {delims : Delimiters} {pos : Nat} {step : Step}
    (h : next? text delims pos = some step)
    : pos ≤ step.tag.start ∧ step.tag.start < step.tag.stop ∧ step.tag.stop ≤ step.resume
        ∧ step.resume ≤ text.length := by
  rcases next?_eq_some h with ⟨htag, hstep⟩
  have hbounds := Tag.find?_bounds htag
  have hresume := ofTag_resume delims hbounds.2.2
  rw [← hstep] at hresume
  exact ⟨hbounds.1, hbounds.2.1, hresume.1, hresume.2⟩

theorem next?_takes {text : Bytes} {delims : Delimiters} {pos : Nat} {step : Step}
    (h : next? text delims pos = some step)
    : step.Takes (Bytes.slice text step.tag.start step.resume) := by
  rcases next?_eq_some h with ⟨htag, hstep⟩
  have hbounds := Tag.find?_bounds htag
  have := ofTag_takes (Nat.le_of_lt hbounds.2.1) (Tag.slice_of_find? htag)
  rwa [← hstep] at this

theorem infix_of_next? {text name body : Bytes} {delims : Delimiters} {pos : Nat} {step : Step}
    {inverted : Bool} (h : next? text delims pos = some step)
    (haction : step.action = .enter inverted name body)
    : body <:+: text := by
  have htakes := next?_takes h
  unfold Takes at htakes
  rw [haction] at htakes
  rcases htakes with ⟨first, last, _, _, _, htaken⟩
  have hslice := Bytes.slice_infix text step.tag.start step.resume
  rw [htaken, List.append_assoc] at hslice
  exact (List.infix_append _ body _).trans hslice

/-- The name of the section that a tag begins, whether it is closed or not. -/
def section? (step : Step) : Option Bytes :=
  match step.action with
  | .enter _ name _ => some name
  | .unclosed _ name => some name
  | _ => none

theorem section?_of_enter {step : Step} {inverted : Bool} {name body : Bytes}
    (h : step.action = .enter inverted name body)
    : step.section? = some name := by
  unfold section?
  rw [h]

theorem ofSection_section? (text : Bytes) (delims : Delimiters) (tag : Tag) (inverted : Bool)
    : (ofSection text delims tag inverted).section? = some (tag.body.drop 1) := by
  unfold ofSection
  dsimp only
  split <;> rfl

theorem ofTag_section? {text name : Bytes} {delims : Delimiters} {tag : Tag}
    (h : (ofTag text delims tag).section? = some name)
    : (tag.sigil = hash ∨ tag.sigil = caret) ∧ name = tag.body.drop 1 := by
  have hsection {inverted : Bool} (h : (ofSection text delims tag inverted).section? = some name)
      : name = tag.body.drop 1 := by
    rw [ofSection_section?] at h
    injection h with h
    exact h.symm
  unfold ofTag at h
  split at h
  . contradiction
  split at h
  . contradiction
  split at h
  . next hsigil => exact ⟨.inl hsigil, hsection h⟩
  split at h
  . next hsigil => exact ⟨.inr hsigil, hsection h⟩
  split at h
  . split at h <;> contradiction
  split at h <;> contradiction

theorem next?_section? {text name : Bytes} {delims : Delimiters} {pos : Nat} {step : Step}
    (h : next? text delims pos = some step) (hname : step.section? = some name)
    : (step.tag.sigil = hash ∨ step.tag.sigil = caret) ∧ name = step.tag.body.drop 1 := by
  rw [(next?_eq_some h).2] at hname
  exact ofTag_section? hname

theorem next?_of_section {text : Bytes} {delims : Delimiters} {pos : Nat} {step : Step}
    (h : next? text delims pos = some step) (hsection : step.tag.sigil = hash ∨ step.tag.sigil = caret)
    : step = ofSection text delims step.tag (step.tag.sigil = caret) := by
  rw [← ofTag_of_section text delims hsection]
  exact (next?_eq_some h).2

theorem next?_enter {text name body : Bytes} {delims : Delimiters} {pos : Nat} {step : Step} {inverted : Bool}
    (h : next? text delims pos = some step) (haction : step.action = .enter inverted name body)
    : ∃ closing, Tag.findClosing? text delims.toMarks name step.tag.stop = some closing
        ∧ body = Bytes.slice text (Bytes.skipNewline text step.tag.stop) closing.start := by
  have hsection := next?_section? h (section?_of_enter haction)
  rw [next?_of_section h hsection.1] at haction
  unfold ofSection at haction
  dsimp only at haction
  rw [← hsection.2] at haction
  split at haction
  . contradiction
  . next closing hclosing =>
    injection haction with _ _ hbody
    exact ⟨closing, hclosing, hbody.symm⟩

theorem closing_not_infix_of_next? {text name body : Bytes} {delims : Delimiters} {pos : Nat}
    {step : Step} {inverted : Bool} (h : next? text delims pos = some step)
    (haction : step.action = .enter inverted name body)
    : ¬ Tag.closing delims.toMarks name <:+: body := by
  rcases next?_enter h haction with ⟨closing, hclosing, rfl⟩
  have hskip := Bytes.le_skipNewline text step.tag.stop
  apply Bytes.not_infix_slice (Tag.closing_ne_nil delims.toMarks name)
  intro i hi hlt
  -- The body ends at the first closing tag, and one inside of it would come before that.
  exact (Tag.findClosing?_first hclosing).2 i (Nat.le_trans hskip hi) hlt

/-- The tag of a section is passed over, and the text goes on behind it. -/
def Drops (step : Step) (name : Bytes) : Prop :=
  (∃ inverted, step.action = .unclosed inverted name) ∧ step.resume = step.tag.stop ∧ step.next = step.delims

theorem next?_drops_iff {text name : Bytes} {delims : Delimiters} {pos : Nat} {step : Step}
    (h : next? text delims pos = some step) (hname : step.section? = some name)
    : step.Drops name ↔ Tag.findClosing? text delims.toMarks name step.tag.stop = none := by
  have hsection := next?_section? h hname
  have hstep := next?_of_section h hsection.1
  unfold ofSection at hstep
  dsimp only at hstep
  rw [← hsection.2] at hstep
  unfold Drops
  split at hstep
  . next hnone =>
    rw [hnone, hstep]
    exact iff_of_true ⟨⟨_, rfl⟩, rfl, rfl⟩ rfl
  . next closing hsome =>
    rw [hsome, hstep]
    apply iff_of_false
    . rintro ⟨⟨_, haction⟩, _⟩
      contradiction
    . simp

theorem next?_closed {text name : Bytes} {delims : Delimiters} {pos : Nat} {step : Step} {closing : Span}
    (h : next? text delims pos = some step) (hname : step.section? = some name)
    (hclosing : Tag.findClosing? text delims.toMarks name step.tag.stop = some closing)
    : let body := Bytes.slice text (Bytes.skipNewline text step.tag.stop) closing.start
      (∃ inverted, step.action = .enter inverted name body)
        ∧ step.resume = (if Bytes.newline ∈ body then Bytes.skipNewline text closing.stop else closing.stop)
        ∧ step.next = delims := by
  have hsection := next?_section? h hname
  have hstep := next?_of_section h hsection.1
  unfold ofSection at hstep
  dsimp only at hstep
  rw [← hsection.2, hclosing] at hstep
  dsimp only at hstep ⊢
  rw [hstep]
  exact ⟨⟨_, rfl⟩, rfl, rfl⟩

/-- A command changes the delimiters; after all other tags they stay as they are. -/
def Leaves (step : Step) : Prop :=
  match step.action with
  | .delimiters new => step.next = new
  | _ => step.next = step.delims

theorem ofTag_leaves (text : Bytes) (delims : Delimiters) (tag : Tag)
    : (ofTag text delims tag).Leaves := by
  have hsection (inverted : Bool) : (ofSection text delims tag inverted).Leaves := by
    unfold ofSection
    dsimp
    split <;> rfl
  unfold ofTag
  split
  . rfl
  split
  . rfl
  split
  . apply hsection
  split
  . apply hsection
  split
  . split <;> rfl
  split <;> rfl

theorem next?_leaves {text : Bytes} {delims : Delimiters} {pos : Nat} {step : Step}
    (h : next? text delims pos = some step)
    : step.Leaves := by
  rw [(next?_eq_some h).2]
  apply ofTag_leaves

end Step

end Mustache
