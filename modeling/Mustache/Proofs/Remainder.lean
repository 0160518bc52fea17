import Mustache.Proofs.Agree
import Mustache.Proofs.Offset
import Mustache.Text.Html

/-!
This module contains a renderer without offsets: each tag is cut out of the text together with what
stands before it, and what is left is the next text. The renderer that goes through one text by offsets
does the same.
-/

namespace Mustache

namespace Bytes

/-- What stands before and after the first occurrence of `needle`. -/
def split? (needle : Bytes) : Bytes → Option (Bytes × Bytes)
  | [] => if needle.isEmpty then some ([], []) else none
  | b :: rest =>
    if needle.isPrefixOf (b :: rest) then
      some ([], (b :: rest).drop needle.length)
    else
      (split? needle rest).map fun cut => (b :: cut.1, cut.2)

/-- The text without the newline that it begins with, if it begins with one. -/
def dropNewline (text : Bytes) : Bytes :=
  if text.head? = some newline then text.drop 1 else text

/-- The text from its second line on, if the first is blank. -/
def dropLine (text : Bytes) : Bytes :=
  let rest := text.dropWhile isBlank
  if rest.head? = some newline then rest.drop 1 else text

theorem split?_eq (needle text : Bytes)
    : split? needle text
        =
      (find? text needle 0).map fun found => (text.take found, text.drop (found + needle.length)) := by
  unfold find?
  rw [if_pos (Nat.zero_le _), List.drop_zero]
  induction text with
  | nil =>
    unfold split? find?.go
    split
    . simp
    . rfl
  | cons b rest ih =>
    unfold split? find?.go
    split
    . simp
    . rw [Nat.add_comm 0 1, find?.go_add, ih, Option.map_map, Option.map_map]
      apply Option.map_congr
      intro found _
      simp [Nat.add_comm 1 found, Nat.add_right_comm found 1]

theorem length_of_split? {needle text before after : Bytes} (h : split? needle text = some (before, after))
    : before.length + needle.length + after.length = text.length := by
  rw [split?_eq, Option.map_eq_some_iff] at h
  rcases h with ⟨found, hfound, hcut⟩
  have := find?_bounds hfound
  rw [Prod.mk.injEq] at hcut
  rw [← hcut.1, ← hcut.2, List.length_take, List.length_drop]
  omega

theorem length_dropNewline_le (text : Bytes) : (dropNewline text).length ≤ text.length := by
  unfold dropNewline
  split
  . simp
  . exact Nat.le_refl _

theorem length_dropLine_le (text : Bytes) : (dropLine text).length ≤ text.length := by
  have := (List.dropWhile_suffix (l := text) isBlank).length_le
  unfold dropLine
  dsimp only
  split
  . rw [List.length_drop]
    omega
  . exact Nat.le_refl _

variable (text : Bytes) (pos : Nat)

theorem find?_drop {needle : Bytes} (h : needle ≠ [])
    : find? text needle pos = (find? (text.drop pos) needle 0).map (pos + ·) := by
  cases Nat.le_total pos text.length with
  | inl hle => exact find?_add needle 0 hle
  | inr hge =>
    have hnone : find? [] needle 0 = none := by
      apply (find?_eq_none_iff needle (Nat.zero_le _)).mpr
      simp [h]
    rw [List.drop_eq_nil_of_le hge, hnone]
    cases hfound : find? text needle pos with
    | none => rfl
    | some found =>
      have := find?_bounds hfound
      have := List.length_pos_iff.mpr h
      omega

theorem split?_drop {needle : Bytes} (h : needle ≠ [])
    : split? needle (text.drop pos)
        =
      (find? text needle pos).map fun found => (slice text pos found, text.drop (found + needle.length)) := by
  rw [split?_eq, find?_drop text pos h, Option.map_map]
  apply Option.map_congr
  intro found _
  simp [slice, List.drop_drop, Nat.add_assoc]

theorem skipNewline_drop : skipNewline text pos = pos + skipNewline (text.drop pos) 0 := by
  unfold skipNewline
  simp only [List.getElem?_drop, Nat.add_zero]
  split <;> rfl

theorem skipLine_drop : skipLine text pos = pos + skipLine (text.drop pos) 0 := by
  unfold skipLine
  simp only [List.drop_zero, Nat.zero_add, List.getElem?_drop]
  split <;> rfl

theorem drop_skipNewline : text.drop (skipNewline text pos) = dropNewline (text.drop pos) := by
  unfold skipNewline dropNewline
  rw [List.head?_drop]
  split
  . rw [List.drop_drop]
  . rfl

theorem drop_skipLine : text.drop (skipLine text pos) = dropLine (text.drop pos) := by
  have hdrop : text.drop (pos + ((text.drop pos).takeWhile isBlank).length)
      = (text.drop pos).dropWhile isBlank :=
    drop_of_drop List.takeWhile_append_dropWhile.symm
  unfold skipLine dropLine
  dsimp only
  rw [← hdrop, List.head?_drop]
  split
  . rw [List.drop_drop]
  . rfl

theorem slice_skipNewline (stop : Nat)
    : slice text (skipNewline text pos) stop = dropNewline (slice text pos stop) := by
  unfold slice
  rw [drop_skipNewline]
  unfold skipNewline dropNewline
  rw [List.head?_take, List.head?_drop]
  cases Nat.eq_zero_or_pos (stop - pos) with
  | inl hempty =>
    have : stop - (pos + 1) = 0 := by omega
    simp only [hempty]
    split <;> simp [this, hempty]
  | inr hpos =>
    rw [if_neg (Nat.ne_of_gt hpos)]
    split
    . rw [List.drop_take, Nat.sub_add_eq]
    . rfl

end Bytes

namespace Tag

variable {text : Bytes} {pos : Nat}

theorem find?_eq_none_of_length_le (delims : Delimiters) (h : text.length ≤ pos)
    : find? text delims.toMarks pos = none := by
  cases htag : find? text delims.toMarks pos with
  | none => rfl
  | some tag =>
    have := find?_bounds htag
    omega

theorem findClosing?_eq_none_of_length_le (marks : Marks) (name : Bytes) (h : text.length ≤ pos)
    : findClosing? text marks name pos = none := by
  cases hclosing : findClosing? text marks name pos with
  | none => rfl
  | some closing =>
    have := findClosing?_bounds hclosing
    omega

theorem find?_drop (text : Bytes) (delims : Delimiters) (pos : Nat)
    : find? text delims.toMarks pos = (find? (text.drop pos) delims.toMarks 0).map (shift pos) := by
  cases Nat.le_total pos text.length with
  | inl hle => exact find?_add delims.toMarks 0 hle
  | inr hge =>
    have hnone : find? [] delims.toMarks 0 = none := find?_eq_none_of_length_le delims (Nat.zero_le _)
    rw [find?_eq_none_of_length_le delims hge, List.drop_eq_nil_of_le hge, hnone, Option.map_none]

theorem findClosing?_drop (text : Bytes) (marks : Marks) (name : Bytes) (pos : Nat)
    : findClosing? text marks name pos
        =
      (findClosing? (text.drop pos) marks name 0).map (Span.shift pos) := by
  cases Nat.le_total pos text.length with
  | inl hle => exact findClosing?_add marks name 0 hle
  | inr hge =>
    have hnone : findClosing? [] marks name 0 = none :=
      findClosing?_eq_none_of_length_le marks name (Nat.zero_le _)
    rw [findClosing?_eq_none_of_length_le marks name hge, List.drop_eq_nil_of_le hge, hnone,
      Option.map_none]

end Tag

/-- Where a brace after the opening mark makes a variable unescaped. -/
inductive BraceRule where
  | marks
  /-- After the standard opening mark, whatever the closing mark is. -/
  | opening

def BraceRule.applies (rule : BraceRule) (marks : Marks) : Bool :=
  match rule with
  | .marks => marks = Delimiters.standard.toMarks
  | .opening => marks.opening = Delimiters.standard.opening

/-- What a tag asks for, the text that is left after it, and the delimiters of that text. -/
structure Reading where
  action : Action
  rest : Bytes
  next : Delimiters

/-- The first tag of a text, with the text before it and the text after it. -/
structure Found where
  before : Bytes
  sigil : UInt8
  body : Bytes
  after : Bytes

namespace Found

def first? (marks : Marks) (text : Bytes) : Option Found :=
  match Bytes.split? marks.opening text with
  | none => none
  | some (before, inside) =>
    match inside.head? with
    | none => none
    | some sigil =>
      (Bytes.split? (Tag.endMark marks sigil) inside).map fun cut => ⟨before, sigil, cut.1, cut.2⟩

def readSection (delims : Delimiters) (inverted : Bool) (found : Found) : Reading :=
  let name := found.body.drop 1
  match Bytes.split? (Tag.closing delims.toMarks name) found.after with
  | none => ⟨.unclosed inverted name, found.after, delims⟩
  | some (inside, after) =>
    let body := Bytes.dropNewline inside
    let rest := if Bytes.newline ∈ body then Bytes.dropNewline after else after
    ⟨.enter inverted name body, rest, delims⟩

def read (rule : BraceRule) (delims : Delimiters) (found : Found) : Reading :=
  if found.sigil = Step.bang then
    ⟨.comment, found.after, delims⟩
  else if found.sigil = Step.ampersand ∨ found.sigil = Tag.openBrace ∧ rule.applies delims.toMarks then
    ⟨.variable false (Bytes.trim (found.body.drop 1)), found.after, delims⟩
  else if found.sigil = Step.hash then
    found.readSection delims false
  else if found.sigil = Step.caret then
    found.readSection delims true
  else if found.sigil = Delimiters.equals then
    match Delimiters.ofCommand? found.body with
    | none => ⟨.badDelimiters found.body, found.after, delims⟩
    | some new => ⟨.delimiters new, Bytes.dropLine found.after, new⟩
  else if found.sigil = Step.greater then
    ⟨.insert (Bytes.trim (found.body.drop 1)), Bytes.dropLine found.after, delims⟩
  else
    ⟨.variable true (Bytes.trim found.body), found.after, delims⟩

theorem length_after_lt {delims : Delimiters} {text : Bytes} {found : Found}
    (h : first? delims.toMarks text = some found)
    : found.after.length < text.length := by
  unfold first? at h
  split at h
  . contradiction
  . next before inside hopening =>
    split at h
    . contradiction
    . rw [Option.map_eq_some_iff] at h
      rcases h with ⟨⟨body, after⟩, hclosing, rfl⟩
      have := Bytes.length_of_split? hopening
      have := Bytes.length_of_split? hclosing
      have := delims.length_opening_pos
      dsimp only
      omega

theorem length_readSection_le (delims : Delimiters) (inverted : Bool) (found : Found)
    : (found.readSection delims inverted).rest.length ≤ found.after.length
        ∧ ∀ inverted' name body, (found.readSection delims inverted).action = .enter inverted' name body →
          body.length ≤ found.after.length := by
  unfold readSection
  dsimp only
  split
  . simp
  . next inside after hcut =>
    have := Bytes.length_of_split? hcut
    have := Bytes.length_dropNewline_le inside
    have := Bytes.length_dropNewline_le after
    constructor
    . dsimp only
      split <;> omega
    . intro _ _ body hbody
      injection hbody with _ _ hbody
      rw [← hbody]
      omega

theorem length_read_le (rule : BraceRule) (delims : Delimiters) (found : Found)
    : (found.read rule delims).rest.length ≤ found.after.length
        ∧ ∀ inverted name body, (found.read rule delims).action = .enter inverted name body →
          body.length ≤ found.after.length := by
  have hline := Bytes.length_dropLine_le found.after
  unfold read
  split
  . simp
  split
  . simp
  split
  . apply length_readSection_le
  split
  . apply length_readSection_le
  split
  . split
    . simp
    . simp [hline]
  split
  . simp [hline]
  . simp

end Found

namespace Engine

/-- Renders a text and, after each tag, what is left as a text of its own. -/
def walkRest (engine : Engine) (rule : BraceRule) (nested : Stack → Delimiters → Bytes → Run)
    (stack : Stack) (delims : Delimiters) (text : Bytes) : Run :=
  match _hfound : Found.first? delims.toMarks text with
  | none => .emit (.tail delims text)
  | some found =>
    let reading := found.read rule delims
    let performed : Run :=
      match _haction : reading.action with
      | .comment => .done
      | .variable escaped name => engine.printVariable stack escaped name
      | .enter inverted name body =>
        enter stack inverted name body fun inner => engine.walkRest rule nested inner delims body
      | .unclosed .. => .done
      | .insert name => engine.insert (nested stack delims) name
      | .delimiters _ => .done
      | .badDelimiters _ => .done
    (Run.emit (.literal found.before)).andThen fun _ =>
      performed.andThen fun _ => engine.walkRest rule nested stack reading.next reading.rest
termination_by text.length
decreasing_by
  . have := Found.length_after_lt _hfound
    have := (found.length_read_le rule delims).2 _ _ _ _haction
    omega
  . have := Found.length_after_lt _hfound
    have := (found.length_read_le rule delims).1
    omega

/-- Renders a text without offsets, with partials nested less than `depth` deep. -/
def processRest (engine : Engine) (rule : BraceRule) (depth : Nat) (stack : Stack) (delims : Delimiters)
    (text : Bytes) : Run :=
  match depth with
  | 0 => .fail .tooDeep
  | depth + 1 => engine.walkRest rule (engine.processRest rule depth) stack delims text

end Engine

def Reading.ofStep (text : Bytes) (step : Step) : Reading :=
  ⟨step.action, text.drop step.resume, step.next⟩

namespace Found

def ofTag (text : Bytes) (pos : Nat) (tag : Tag) : Found where
  before := Bytes.slice text pos tag.start
  sigil := tag.sigil
  body := tag.body
  after := text.drop tag.stop

variable (text : Bytes) (delims : Delimiters) (pos : Nat)

theorem first?_drop
    : first? delims.toMarks (text.drop pos) = (Tag.find? text delims.toMarks pos).map (ofTag text pos) := by
  unfold first? Tag.find?
  rw [Bytes.split?_drop text pos delims.opening_ne_nil]
  cases Bytes.find? text delims.opening pos with
  | none => rfl
  | some start =>
    dsimp only [Option.map_some]
    rw [List.head?_drop]
    cases text[start + delims.opening.length]? with
    | none => rfl
    | some sigil =>
      have hmark := List.length_pos_iff.mp (Tag.length_endMark_pos delims sigil)
      dsimp only
      rw [Bytes.split?_drop _ _ hmark]
      cases Bytes.find? text (Tag.endMark delims.toMarks sigil) (start + delims.opening.length) <;> rfl

theorem readSection_ofTag (tag : Tag) (inverted : Bool)
    : (ofTag text pos tag).readSection delims inverted
        =
      .ofStep text (Step.ofSection text delims tag inverted) := by
  have hclosing := Tag.closing_ne_nil delims.toMarks (tag.body.drop 1)
  unfold readSection Step.ofSection Tag.findClosing? ofTag
  dsimp only
  rw [Bytes.split?_drop _ _ hclosing]
  cases Bytes.find? text (Tag.closing delims.toMarks (tag.body.drop 1)) tag.stop with
  | none => rfl
  | some start =>
    dsimp only [Option.map_some, Reading.ofStep]
    rw [← Bytes.slice_skipNewline]
    split
    . rw [Bytes.drop_skipNewline]
    . rfl

theorem read_ofTag (tag : Tag)
    : (ofTag text pos tag).read .marks delims = .ofStep text (Step.ofTag text delims tag) := by
  have hsigil : (ofTag text pos tag).sigil = tag.sigil := rfl
  have hbody : (ofTag text pos tag).body = tag.body := rfl
  have hline : Bytes.dropLine (ofTag text pos tag).after = text.drop (Bytes.skipLine text tag.stop) :=
    (Bytes.drop_skipLine text tag.stop).symm
  have hbrace : (tag.sigil = Tag.openBrace ∧ BraceRule.marks.applies delims.toMarks = true)
      ↔ Tag.isTriple delims.toMarks tag.sigil = true := by
    simp [BraceRule.applies, Tag.isTriple]
  unfold read Step.ofTag
  simp only [hsigil, hbody, hline, hbrace]
  split
  . rfl
  split
  . rfl
  split
  . apply readSection_ofTag
  split
  . apply readSection_ofTag
  split
  . cases Delimiters.ofCommand? tag.body <;> rfl
  split
  . rfl
  . rfl

end Found

namespace Engine

variable {engine : Engine} {rule : BraceRule} {nested : Stack → Delimiters → Bytes → Run} {stack : Stack}
  {delims : Delimiters} {text : Bytes}

theorem walkRest_of_none (h : Found.first? delims.toMarks text = none)
    : engine.walkRest rule nested stack delims text = .emit (.tail delims text) := by
  rw [walkRest]
  split
  . rfl
  . next hfound =>
    rw [h] at hfound
    contradiction

theorem walkRest_of_some {found : Found} (h : Found.first? delims.toMarks text = some found)
    : engine.walkRest rule nested stack delims text
        =
      (Run.emit (.literal found.before)).andThen fun _ =>
        (engine.perform stack (fun inner body => engine.walkRest rule nested inner delims body)
          (nested stack delims) (found.read rule delims).action).andThen fun _ =>
            engine.walkRest rule nested stack (found.read rule delims).next
              (found.read rule delims).rest := by
  rw [walkRest]
  split
  . next hfound =>
    rw [h] at hfound
    contradiction
  . next found' hfound =>
    rw [h] at hfound
    injection hfound with hfound
    subst hfound
    dsimp only
    congr
    funext
    congr
    split
    all_goals
      next haction =>
        rw [haction]
        rfl

theorem perform_agrees {inside inside' : Stack → Bytes → Run} {content content' : Bytes → Run}
    {action : Action}
    (hinside : ∀ inner inverted name body, action = .enter inverted name body →
      (inside inner body).Agrees (inside' inner body))
    (hcontent : ∀ inserted, (content inserted).Agrees (content' inserted))
    : (engine.perform stack inside content action).Agrees
        (engine.perform stack inside' content' action) := by
  cases action with
  | enter inverted name body =>
    apply enter_related Run.Agrees.congruence
    . intro effectful callout
      apply Run.Agrees.refl
    . intro inner
      exact hinside inner inverted name body rfl
  | insert name =>
    apply insert_related Run.Agrees.congruence rfl
    . intro answer
      apply Run.Agrees.refl
    . exact hcontent
  | «variable» | comment | unclosed | delimiters | badDelimiters => exact .refl _

theorem walk_agrees_walkRest {nested' : Stack → Delimiters → Bytes → Run}
    (hnested : ∀ stack delims text, (nested stack delims text).Agrees (nested' stack delims text))
    (stack : Stack) (delims : Delimiters) (text : Bytes) (pos : Nat)
    : (engine.walk nested stack delims text pos).Agrees
        (engine.walkRest .marks nested' stack delims (text.drop pos)) := by
  have hfound := Found.first?_drop text delims pos
  cases htag : Tag.find? text delims.toMarks pos with
  | none =>
    have hstep : Step.next? text delims pos = none := by
      unfold Step.next?
      rw [htag, Option.map_none]
    rw [htag, Option.map_none] at hfound
    rw [walk_of_none engine nested stack hstep, walkRest_of_none hfound]
    apply Run.Agrees.refl
  | some tag =>
    have hstep : Step.next? text delims pos = some (Step.ofTag text delims tag) := by
      unfold Step.next?
      rw [htag, Option.map_some]
    have := Step.next?_resume hstep
    rw [htag, Option.map_some] at hfound
    rw [walk_of_some engine nested stack hstep, walkRest_of_some hfound, Found.read_ofTag,
      Step.ofTag_tag, Step.ofTag_delims]
    apply Run.Agrees.andThen
    . apply Run.Agrees.refl
    . apply Run.Agrees.andThen
      . unfold turn
        apply (Run.Agrees.emit_andThen_of_silent ⟨rfl, rfl⟩ _).trans
        apply perform_agrees
        . intro inner inverted name body haction
          have := Step.next?_body hstep haction
          exact walk_agrees_walkRest hnested inner delims body 0
        . exact hnested stack delims
      . exact walk_agrees_walkRest hnested stack _ text _
termination_by text.length - pos

theorem process_agrees_processRest (depth : Nat) (stack : Stack) (delims : Delimiters) (text : Bytes)
    : (engine.process depth stack delims text).Agrees
        (engine.processRest .marks depth stack delims text) := by
  induction depth generalizing stack delims text with
  | zero => exact .refl _
  | succ depth ih =>
    rw [process_succ]
    exact walk_agrees_walkRest ih stack delims text 0

/--
A search from an offset of a text finds what a search of the rest of the text finds, and a render that
goes through the text by offsets does what one does that goes on with the rest of the text after each
tag: with the same output, the same callouts in the same order, and the same failure, if any.
-/
theorem offsets_agree_with_rests (text : Bytes) (delims : Delimiters)
    : (∀ pos,
        Tag.find? text delims.toMarks pos
            = (Tag.find? (text.drop pos) delims.toMarks 0).map (Tag.shift pos)
          ∧ (∀ name, Tag.findClosing? text delims.toMarks name pos
            = (Tag.findClosing? (text.drop pos) delims.toMarks name 0).map (Span.shift pos))
          ∧ Bytes.skipNewline text pos = pos + Bytes.skipNewline (text.drop pos) 0
          ∧ Bytes.skipLine text pos = pos + Bytes.skipLine (text.drop pos) 0)
        ∧ ∀ (engine : Engine) (depth : Nat) (stack : Stack),
          (engine.process depth stack delims text).Agrees
            (engine.processRest .marks depth stack delims text) := by
  constructor
  . intro pos
    refine ⟨Tag.find?_drop text delims pos, ?_, Bytes.skipNewline_drop text pos,
      Bytes.skipLine_drop text pos⟩
    intro name
    exact Tag.findClosing?_drop text delims.toMarks name pos
  . intro engine depth stack
    exact process_agrees_processRest depth stack delims text

/-- Between other marks, a brace after the standard opening mark is part of the name. -/
theorem not_agrees_brace_after_opening
    : let engine : Engine := ⟨Html.escape, Resolver.none⟩
      let template := Bytes.ofAscii "\x7b\x7b=\x7b\x7b ]]=\x7d\x7d\x7b\x7b\x7bx]]"
      let stack : Stack := [Context.ofData [(.text "x", .text "<")]]
      (engine.process 1 stack .standard template).output = []
        ∧ (engine.processRest .opening 1 stack .standard template).output = Bytes.ofAscii "<"
        ∧ ¬ (engine.process 1 stack .standard template).Agrees
            (engine.processRest .opening 1 stack .standard template) := by
  intro engine template stack
  have houtput : (engine.process 1 stack .standard template).output = [] := by decide +kernel
  have houtput' : (engine.processRest .opening 1 stack .standard template).output = Bytes.ofAscii "<" := by
    decide +kernel
  refine ⟨houtput, houtput', ?_⟩
  intro h
  have := h.output
  rw [houtput, houtput'] at this
  contradiction

end Engine

end Mustache
