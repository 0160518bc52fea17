import Mustache.Proofs.Agree
import Mustache.Proofs.Print
import Mustache.Proofs.Section
import Mustache.Text.Html

/-!
This module contains the correctness of the renderer: on the printed text of a tree it does what the
tree means.
-/

namespace Mustache

namespace Step

variable {delims : Delimiters} {b : UInt8} {name text : Bytes} {tag : Tag}

theorem ofTag_comment (hsigil : tag.sigil = bang)
    : ofTag text delims tag = ⟨delims, tag, .comment, tag.stop, delims⟩ := by
  unfold ofTag
  rw [if_pos hsigil]

theorem ofTag_unescaped (hsigil : tag.sigil = ampersand)
    : ofTag text delims tag
        =
      ⟨delims, tag, .variable false (Bytes.trim (tag.body.drop 1)), tag.stop, delims⟩ := by
  unfold ofTag
  rw [hsigil, if_neg (by decide), if_pos (.inl rfl)]

theorem ofTag_escaped (hsigil : tag.sigil ∉ Tree.sigils)
    (htriple : Tag.isTriple delims.toMarks tag.sigil = false)
    : ofTag text delims tag
        =
      ⟨delims, tag, .variable true (Bytes.trim tag.body), tag.stop, delims⟩ := by
  unfold Tree.sigils at hsigil
  simp only [List.mem_cons, not_or] at hsigil
  rcases hsigil with ⟨hhash, hcaret, hampersand, hbang, hgreater, hequals, _⟩
  unfold ofTag
  rw [if_neg hbang, if_neg (by simp [hampersand, htriple]), if_neg hhash, if_neg hcaret,
    if_neg hequals, if_neg hgreater]

theorem ofTag_variable {escaped : Bool} {rest : Tree}
    (hwell : (Tree.variable escaped name rest).WellFormed delims.toMarks)
    (hbody : tag.body = Tree.variableBody escaped name) (hsigil : tag.body.head? = some tag.sigil)
    : ofTag text delims tag = ⟨delims, tag, .variable escaped name, tag.stop, delims⟩ := by
  unfold Tree.WellFormed at hwell
  rcases hwell with ⟨⟨⟨_, htrimmed, hclear⟩, hsigils⟩, _⟩
  rw [hbody] at hsigil
  cases escaped with
  | true =>
    have htriple : Tag.isTriple delims.toMarks tag.sigil = false := by
      rcases List.head?_eq_some_iff.mp hsigil with ⟨body, rfl⟩
      exact Tag.isTriple_of_clear hclear
    rw [ofTag_escaped (hsigils _ hsigil) htriple, hbody]
    unfold Tree.variableBody
    rw [if_pos rfl, Bytes.trim_of_isTrimmed htrimmed]
  | false =>
    injection hsigil with hsigil
    rw [ofTag_unescaped hsigil.symm, hbody]
    unfold Tree.variableBody
    rw [if_neg (by simp), List.drop_succ_cons, List.drop_zero, Bytes.trim_of_isTrimmed htrimmed]

theorem ofTag_insert (hsigil : tag.sigil = greater) (hbody : tag.body = greater :: name)
    (htrimmed : name.IsTrimmed) (hrest : ¬ Bytes.EndsLine (text.drop tag.stop))
    : ofTag text delims tag = ⟨delims, tag, .insert name, tag.stop, delims⟩ := by
  have htriple : Tag.isTriple delims.toMarks greater = false := by rfl
  unfold ofTag
  rw [hsigil, htriple, if_neg (by decide), if_neg (by decide), if_neg (by decide), if_neg (by decide),
    if_neg (by decide), if_pos rfl, Bytes.skipLine_of_not_endsLine hrest, hbody, List.drop_succ_cons,
    List.drop_zero, Bytes.trim_of_isTrimmed htrimmed]

theorem ofTag_eq_ofSection {inverted : Bool} (hsigil : tag.sigil = Tree.blockSigil inverted)
    : ofTag text delims tag = ofSection text delims tag inverted := by
  have hsection : tag.sigil = hash ∨ tag.sigil = caret := by
    rw [hsigil]
    cases inverted with
    | true => exact .inr rfl
    | false => exact .inl rfl
  have hinverted : decide (tag.sigil = caret) = inverted := by
    rw [hsigil]
    cases inverted <;> rfl
  rw [ofTag_of_section text delims hsection, hinverted]

theorem ofTag_block {inverted : Bool} {body : Bytes} {start stop : Nat}
    (hsigil : tag.sigil = Tree.blockSigil inverted) (hname : tag.body.drop 1 = name)
    (hclosing : Tag.findClosing? text delims.toMarks name tag.stop = some ⟨start, stop⟩)
    (hbody : Bytes.slice text tag.stop start = body)
    (hfirst : ¬ Bytes.EndsLine (text.drop tag.stop)) (hlast : ¬ Bytes.EndsLine (text.drop stop))
    : ofTag text delims tag = ⟨delims, tag, .enter inverted name body, stop, delims⟩ := by
  rw [ofTag_eq_ofSection hsigil]
  unfold ofSection
  dsimp
  rw [hname, hclosing]
  dsimp
  rw [Bytes.skipNewline_of_not_endsLine hfirst, Bytes.skipNewline_of_not_endsLine hlast, hbody, ite_self]

end Step

namespace Engine

variable {engine : Engine} {nested : Stack → Delimiters → Bytes → Run} {stack : Stack}
  {delims : Delimiters} {text : Bytes} {pos : Nat}

theorem walk_nil (htext : text.drop pos = [])
    : (engine.walk nested stack delims text pos).Agrees .done := by
  cases hstep : Step.next? text delims pos with
  | none =>
    rw [walk_of_none engine nested stack hstep, htext]
    apply Run.Agrees.emit_of_silent
    constructor <;> rfl
  | some step =>
    have := Step.next?_bounds hstep
    rw [List.drop_eq_nil_iff] at htext
    omega

theorem walk_literal {before after : Bytes} (htext : text.drop pos = before ++ after)
    (hclear : delims.Clear before)
    : (engine.walk nested stack delims text pos).Agrees
        ((Run.emit (.literal before)).andThen fun _ =>
          engine.walk nested stack delims text (pos + before.length)) := by
  have havoids : Bytes.Avoids delims.opening (text.drop pos) before.length := by
    have := Marks.avoids_clear after [] hclear
    rwa [List.append_nil, ← htext] at this
  have hnext : Step.next? text delims (pos + before.length) = Step.next? text delims pos := by
    unfold Step.next? Tag.find?
    rw [Bytes.find?_add_of_avoids havoids]
  have hbefore := Bytes.slice_eq_of_drop htext
  cases hstep : Step.next? text delims pos with
  | none =>
    have hdrop := Bytes.slice_append_drop text (Nat.le_add_right pos before.length)
    rw [walk_of_none engine nested stack hstep, walk_of_none engine nested stack (hnext.trans hstep)]
    rw [← hdrop, hbefore]
    apply Run.Agrees.emit_append <;> rfl
  | some step =>
    have hbounds := Step.next?_bounds (hnext.trans hstep)
    have hslice := Bytes.slice_append_slice text (Nat.le_add_right pos before.length) hbounds.1
    rw [walk_of_some engine nested stack hstep, walk_of_some engine nested stack (hnext.trans hstep)]
    rw [← hslice, hbefore, ← Run.andThen_assoc (.emit (.literal before)) fun _ => .emit (.literal _)]
    apply Run.Agrees.andThen
    . apply Run.Agrees.emit_append <;> rfl
    . apply Run.Agrees.refl

theorem walk_tag {b : UInt8} {body after : Bytes} {tag : Tag} {action : Action} {resume : Nat}
    (htext : text.drop pos = delims.wrap (b :: body) ++ after) (hclear : delims.Clear (b :: body))
    (htag : tag = ⟨pos, pos + (delims.wrap (b :: body)).length, b, b :: body⟩)
    (hstep : Step.ofTag text delims tag = ⟨delims, tag, action, resume, delims⟩)
    : (engine.walk nested stack delims text pos).Agrees
        ((engine.perform stack (fun inner body => engine.walk nested inner delims body 0)
          (nested stack delims) action).andThen fun _ =>
            engine.walk nested stack delims text resume) := by
  have hfound := Tag.find?_wrap htext hclear
  have hnext : Step.next? text delims pos = some ⟨delims, tag, action, resume, delims⟩ := by
    unfold Step.next?
    rw [hfound, ← htag, Option.map_some, hstep]
  have hsilent : (Event.literal (Bytes.slice text pos tag.start)).Silent := by
    constructor
    . simp [Event.output, Bytes.slice, htag]
    . rfl
  rw [walk_of_some engine nested stack hnext]
  apply (Run.Agrees.emit_andThen_of_silent hsilent _).trans
  apply Run.Agrees.andThen
  . unfold turn
    apply Run.Agrees.emit_andThen_of_silent
    constructor <;> rfl
  . apply Run.Agrees.refl

theorem insert_of_missing {content : Bytes → Run} {name : Bytes} {remark : Option String}
    (h : engine.resolver name = .ok ⟨none, remark⟩)
    : (engine.insert content name).Agrees .done := by
  unfold insert
  rw [h]
  apply Run.Agrees.emit_andThen_of_silent
  constructor <;> rfl

theorem insert_of_found {content : Bytes → Run} {name found : Bytes} {remark : Option String}
    (h : engine.resolver name = .ok ⟨some found, remark⟩)
    : (engine.insert content name).Agrees (content found) := by
  unfold insert
  rw [h]
  apply Run.Agrees.emit_andThen_of_silent
  constructor <;> rfl

theorem printVariable_agrees (escaped : Bool) (name : Bytes)
    : (engine.printVariable stack escaped name).Agrees
        (Tree.runVariable engine.escape stack escaped name) := by
  unfold printVariable Tree.runVariable
  cases stack.read name with
  | error failure => exact .refl _
  | ok bytes =>
    cases escaped with
    | true => exact ⟨rfl, rfl, rfl⟩
    | false => exact ⟨rfl, rfl, rfl⟩

theorem call_agrees (effectful : Bool) (callout : Callout) (name body : Bytes)
    : (call effectful callout name body).Agrees (Tree.runCallout effectful callout name body) := by
  unfold call Tree.runCallout
  apply Run.Agrees.andThen (.refl _)
  cases callout.run body with
  | error failure =>
    cases failure with
    | render error => exact .refl _
    | other reason => exact .refl _
  | ok value =>
    dsimp
    cases value.render? with
    | error failure => exact .refl _
    | ok bytes => exact ⟨rfl, rfl, rfl⟩

theorem each_if_singleton (condition : Bool) (inside : Stack → Run)
    : Run.each (if condition then [stack] else []) inside
        =
      if condition then inside stack else .done := by
  cases condition with
  | true => exact Run.andThen_done (inside stack)
  | false => rfl

theorem enter_agrees (inverted : Bool) (name body : Bytes) (inside : Stack → Run)
    : (enter stack inverted name body inside).Agrees
        (Tree.runBlock stack inverted name body inside) := by
  unfold enter Tree.runBlock
  cases hprobe : stack.probe name with
  | error failure =>
    rw [Plan.ofSection_of_error inverted hprobe]
    exact .refl _
  | ok binding? =>
    rw [Plan.ofSection_of_ok inverted hprobe]
    cases binding? with
    | none =>
      cases inverted with
      | true => simp [Plan.inverted, Plan.once, Except.mapError, Run.Agrees.refl]
      | false => exact .refl _
    | some binding =>
      cases binding with
      | absent => cases inverted <;> exact .refl _
      | flag b =>
        cases inverted <;> cases b <;>
          simp [Plan.inverted, Plan.positive, Plan.once, Except.mapError, Run.Agrees.refl]
      | callout effectful callout =>
        cases inverted with
        | true => exact .refl _
        | false => exact call_agrees effectful callout name body
      | list items =>
        cases inverted with
        | true =>
          dsimp [Plan.inverted, Plan.once, Except.mapError]
          rw [each_if_singleton]
          exact .refl _
        | false =>
          dsimp [Plan.positive, Except.mapError]
          rw [Run.each_map]
          exact .refl _
      | «variable» value =>
        cases hempty : value.isEmpty with
        | error error =>
          cases inverted <;>
            simp [Plan.inverted, Plan.positive, hempty, Except.map, Except.mapError, Run.Agrees.refl]
        | ok empty =>
          cases inverted <;> cases empty <;>
            simp [Plan.inverted, Plan.positive, Plan.once, hempty, Except.map, Except.mapError,
              Run.Agrees.refl]

theorem walk_print {tree : Tree} {depth : Nat} (hplain : delims.Plain)
    (hwell : tree.WellFormed delims.toMarks)
    (hresolved : tree.Resolved engine.resolver delims.toMarks) (hdepth : tree.nesting ≤ depth)
    (htext : text.drop pos = tree.print delims.toMarks)
    : (engine.walk (engine.process depth) stack delims text pos).Agrees
        (tree.run engine.escape delims.toMarks stack) := by
  -- The body of a section and the content of a partial are texts of their own, read from their start.
  induction tree generalizing depth stack text pos with
  | nil => exact walk_nil htext
  | literal literal rest ih =>
    unfold Tree.print at htext
    apply (walk_literal htext hwell.1).trans
    apply Run.Agrees.andThen
    . apply Run.Agrees.refl
    . exact ih hwell.2.2 hresolved hdepth (Bytes.drop_of_drop htext)
  | «variable» escaped name rest ih =>
    rcases Tree.clear_variableBody hplain hwell with ⟨b, body, hbody, hclear, _⟩
    unfold Tree.print at htext
    rw [hbody] at htext
    apply (walk_tag htext hclear rfl (Step.ofTag_variable hwell hbody.symm rfl)).trans
    apply Run.Agrees.andThen
    . exact printVariable_agrees escaped name
    . exact ih hwell.2 hresolved hdepth (Bytes.drop_of_drop htext)
  | comment comment rest ih =>
    unfold Tree.print at htext
    have hclear : delims.Clear (Step.bang :: comment) := hplain.clear.cons (by simp) hwell.1
    apply (walk_tag htext hclear rfl (Step.ofTag_comment rfl)).trans
    exact ih hwell.2 hresolved hdepth (Bytes.drop_of_drop htext)
  | block inverted name body rest ihBody ihRest =>
    rcases hwell with ⟨hname, hnot, hwellBody, hwellRest⟩
    unfold Tree.print at htext
    unfold Tree.nesting at hdepth
    have hinside := Bytes.drop_of_drop htext
    have hrest := Bytes.drop_of_drop (Bytes.drop_of_drop hinside)
    have hfirst := Bytes.not_endsLine_append (Tree.not_endsLine_print hplain hwellBody)
      (Tree.not_endsLine_wrap hplain (Tag.slash :: name) (rest.print delims.toMarks))
    have hlast := Tree.not_endsLine_print hplain hwellRest
    rw [← hinside] at hfirst
    rw [← hrest] at hlast
    have hclosing := Tree.findClosing?_print hplain hname hnot hwellBody hinside
    have hclear := Tree.clear_blockSigil hplain inverted hname
    have hbody := Bytes.slice_eq_of_drop hinside
    apply (walk_tag htext hclear rfl (Step.ofTag_block rfl rfl hclosing hbody hfirst hlast)).trans
    apply Run.Agrees.andThen
    . refine .trans ?_ (enter_agrees inverted name _ _)
      apply enter_related Run.Agrees.congruence
      . intro effectful callout
        apply Run.Agrees.refl
      . intro inner
        exact ihBody hwellBody hresolved.1 (by omega) rfl
    . exact ihRest hwellRest hresolved.2 (by omega) hrest
  | missing name rest ih =>
    rcases hwell with ⟨⟨_, htrimmed, hname⟩, hgreater, hwell⟩
    rcases hresolved with ⟨⟨remark, hmissing⟩, hresolved⟩
    unfold Tree.print at htext
    have hrest := Bytes.drop_of_drop htext
    have hline := Tree.not_endsLine_print hplain hwell
    rw [← hrest] at hline
    have hclear := hgreater.cons List.mem_cons_self hname
    apply (walk_tag htext hclear rfl (Step.ofTag_insert rfl rfl htrimmed hline)).trans
    apply (Run.Agrees.andThen (insert_of_missing hmissing) (.refl _)).trans
    rw [Run.done_andThen]
    exact ih hwell hresolved hdepth hrest
  | insert name content rest ihContent ihRest =>
    rcases hwell with ⟨⟨_, htrimmed, hname⟩, hgreater, hwellContent, hwellRest⟩
    rcases hresolved with ⟨⟨remark, hfound⟩, hresolvedContent, hresolvedRest⟩
    unfold Tree.print at htext
    unfold Tree.nesting at hdepth
    have hrest := Bytes.drop_of_drop htext
    have hline := Tree.not_endsLine_print hplain hwellRest
    rw [← hrest] at hline
    have hclear := hgreater.cons List.mem_cons_self hname
    apply (walk_tag htext hclear rfl (Step.ofTag_insert rfl rfl htrimmed hline)).trans
    apply Run.Agrees.andThen
    . apply (insert_of_found hfound).trans
      cases depth with
      | zero => omega
      | succ depth => exact ihContent hwellContent hresolvedContent (by omega) rfl
    . exact ihRest hwellRest hresolvedRest (by omega) hrest

/--
The renderer, which knows texts only, does on the printed text of a tree what the tree means: with the
same output, the same callouts in the same order, and the same failure, if any.
-/
theorem process_print_agrees (engine : Engine) (delims : Delimiters) (hplain : delims.Plain)
    (tree : Tree) (hwell : tree.WellFormed delims.toMarks)
    (hresolved : tree.Resolved engine.resolver delims.toMarks) (depth : Nat)
    (hdepth : tree.nesting < depth) (stack : Stack)
    : (engine.process depth stack delims (tree.print delims.toMarks)).Agrees
        (tree.run engine.escape delims.toMarks stack) := by
  cases depth with
  | zero => omega
  | succ depth =>
    rw [process_succ]
    exact walk_print hplain hwell hresolved (by omega) rfl

theorem process_print_agrees_section_with_partial
    : let marks := Delimiters.standard.toMarks
      let content : Tree := .comment (Bytes.ofAscii "who") (.variable true (Bytes.ofAscii "name") .nil)
      let tree : Tree := .literal (Bytes.ofAscii "Hi ") (.block false (Bytes.ofAscii "all")
        (.insert (Bytes.ofAscii "one") content (.literal (Bytes.ofAscii ",") .nil))
        (.missing (Bytes.ofAscii "end") .nil))
      let engine : Engine :=
        ⟨Html.escape, Resolver.ofTable [(Bytes.ofAscii "one", content.print marks)]⟩
      let couple : Context := fun name =>
        if name = Bytes.ofAscii "name" then .variable (.text "Ann & Bo") else .absent
      let context : Context := fun name =>
        if name = Bytes.ofAscii "all" then .list [couple, Context.empty] else .absent
      Delimiters.standard.Plain ∧ tree.WellFormed marks ∧ tree.Resolved engine.resolver marks
        ∧ tree.nesting < 2
        ∧ (engine.process 2 [context] .standard (tree.print marks)).Agrees
            (tree.run engine.escape marks [context])
        ∧ (tree.run engine.escape marks [context]).output = Bytes.ofAscii "Hi Ann &amp; Bo,," := by
  intro marks content tree engine couple context
  have hplain : Delimiters.standard.Plain := ⟨by decide, by decide⟩
  have hwell : tree.WellFormed marks := by decide
  have hresolved : tree.Resolved engine.resolver marks :=
    ⟨⟨⟨none, rfl⟩, trivial, trivial⟩, ⟨_, rfl⟩, trivial⟩
  have hdepth : tree.nesting < 2 := by decide
  have houtput : (tree.run engine.escape marks [context]).output = Bytes.ofAscii "Hi Ann &amp; Bo,," := by
    cbv
  exact ⟨hplain, hwell, hresolved, hdepth,
    process_print_agrees engine .standard hplain tree hwell hresolved 2 hdepth [context], houtput⟩

end Engine

end Mustache
