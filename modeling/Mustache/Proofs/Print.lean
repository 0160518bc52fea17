import Mustache.Proofs.Command
import Mustache.Proofs.Tree

/-!
This module contains what the searches of the renderer find in the printed text of a tree: the tag that
it begins with, the closing tag of a section behind its body, and no rest of a line after a tag.
-/

namespace Mustache

namespace Bytes

theorem not_endsLine_append {before after : Bytes} (hbefore : ¬ before.EndsLine)
    (hafter : ¬ after.EndsLine)
    : ¬ EndsLine (before ++ after) := by
  unfold EndsLine at hbefore hafter ⊢
  rw [List.dropWhile_append]
  split
  . exact hafter
  . next hrest =>
    cases hdrop : before.dropWhile isBlank with
    | nil => simp [hdrop] at hrest
    | cons b rest =>
      rw [hdrop] at hbefore
      simpa using hbefore

theorem skipNewline_of_not_endsLine {text : Bytes} {pos : Nat}
    (h : ¬ EndsLine (text.drop pos))
    : skipNewline text pos = pos := by
  unfold skipNewline
  split
  . next hnewline =>
    exfalso
    apply h
    have hlt := (List.getElem?_eq_some_iff.mp hnewline).1
    have hget := (List.getElem?_eq_some_iff.mp hnewline).2
    unfold EndsLine
    rw [List.drop_eq_getElem_cons hlt, hget]
    rfl
  . rfl

theorem skipLine_of_not_endsLine {text : Bytes} {pos : Nat} (h : ¬ EndsLine (text.drop pos))
    : skipLine text pos = pos := by
  unfold skipLine
  dsimp
  split
  . next hnewline =>
    exfalso
    apply h
    have hsplit := @List.takeWhile_append_dropWhile _ isBlank (text.drop pos)
    have hdrop := @List.drop_left _ ((text.drop pos).takeWhile isBlank)
      ((text.drop pos).dropWhile isBlank)
    rw [hsplit] at hdrop
    rw [← List.head?_drop, ← List.drop_drop, hdrop] at hnewline
    exact hnewline
  . rfl

theorem trim_of_isTrimmed {text : Bytes} (h : text.IsTrimmed)
    : trim text = text := by
  have := @trim_append [] text [] (by simp) (by simp) h.1 h.2
  rwa [List.nil_append, List.append_nil] at this

end Bytes

theorem Marks.Clear.cons {marks : Marks} {known bytes : Bytes} {b : UInt8} (hknown : marks.Clear known)
    (hb : b ∈ known) (h : marks.Clear bytes)
    : marks.Clear (b :: bytes) := by
  intro a ha
  cases List.mem_cons.mp ha with
  | inl heq =>
    rw [heq]
    exact hknown b hb
  | inr hmem => exact h a hmem

theorem Marks.Clear.ne_of_mem_opening {marks : Marks} {known : Bytes} {a b : UInt8}
    (hknown : marks.Clear known) (ha : a ∈ known) (hb : b ∈ marks.opening)
    : b ≠ a := by
  intro heq
  rw [heq] at hb
  exact (hknown a ha).1 hb

namespace Tag

variable {delims : Delimiters} {b : UInt8} {body : Bytes}

theorem isTriple_of_clear (h : delims.Clear (b :: body))
    : isTriple delims.toMarks b = false := by
  unfold isTriple
  rw [Bool.and_eq_false_iff, decide_eq_false_iff_not, beq_eq_false_iff_ne]
  cases decEq b openBrace with
  | isFalse hne => exact .inl hne
  | isTrue heq =>
    right
    intro hstandard
    apply (h b List.mem_cons_self).1
    rw [heq, hstandard]
    decide

theorem find?_wrap {text after : Bytes} {pos : Nat}
    (htext : text.drop pos = delims.wrap (b :: body) ++ after) (hbody : delims.Clear (b :: body))
    : find? text delims.toMarks pos
        =
      some ⟨pos, pos + (delims.wrap (b :: body)).length, b, b :: body⟩ := by
  unfold Marks.wrap at htext
  rw [List.append_assoc, List.append_assoc] at htext
  have hinside : text.drop (pos + delims.opening.length) = b :: body ++ delims.closing ++ after := by
    rw [← List.drop_drop, htext, List.drop_left, List.append_assoc]
  have hlength := congrArg List.length htext
  simp only [List.length_drop, List.length_append, List.length_cons] at hlength
  have hmark : endMark delims.toMarks b = delims.closing := by
    unfold endMark
    rw [isTriple_of_clear hbody]
    rfl
  rcases Marks.closing_eq_cons delims with ⟨c, rest, hclosing⟩
  rw [find?_eq_some_iff, hmark]
  refine ⟨pos + delims.opening.length + (b :: body).length, ?_, ?_, ?_, ?_, ?_⟩
  . apply @Bytes.find?_eq_of_avoids _ _ [] _ _ htext (Bytes.avoids_zero _ _)
    omega
  . rw [← List.head?_drop, hinside]
    rfl
  . apply Bytes.find?_eq_of_avoids hinside
    . rw [List.append_assoc, hclosing]
      apply Bytes.avoids_of_not_mem
      intro hc
      apply (hbody c hc).2
      rw [hclosing]
      simp
    . omega
  . unfold Marks.wrap
    simp only [List.length_append]
    omega
  . rw [List.append_assoc] at hinside
    rw [Bytes.slice_eq_of_drop hinside]

end Tag

namespace Tree

variable {delims : Delimiters} {tree : Tree} {name : Bytes}

theorem clear_variableBody (hplain : delims.Plain) {escaped : Bool}
    (h : (Tree.variable escaped name tree).WellFormed delims.toMarks)
    : ∃ b body, variableBody escaped name = b :: body ∧ delims.Clear (b :: body) ∧ b ≠ Tag.slash := by
  unfold WellFormed at h
  rcases h with ⟨⟨⟨hne, _, hclear⟩, hsigils⟩, _⟩
  cases escaped with
  | true =>
    rcases List.exists_cons_of_ne_nil hne with ⟨b, body, rfl⟩
    refine ⟨b, body, rfl, hclear, ?_⟩
    intro hslash
    apply hsigils b rfl
    simp [hslash, sigils]
  | false => exact ⟨_, _, rfl, hplain.clear.cons (by simp) hclear, by decide⟩

theorem clear_blockSigil (hplain : delims.Plain) (inverted : Bool) (h : delims.Clear name)
    : delims.Clear (blockSigil inverted :: name) := by
  cases inverted with
  | true => exact hplain.clear.cons (by simp [blockSigil]) h
  | false => exact hplain.clear.cons (by simp [blockSigil]) h

theorem clear_closing (hplain : delims.Plain) (h : delims.Clear name)
    : delims.Clear (Tag.slash :: name) := by
  exact hplain.clear.cons (by simp) h

theorem tagAhead_print (hplain : delims.Plain) (hwell : tree.WellFormed delims.toMarks) {after : Bytes}
    (hafter : delims.TagAhead after)
    : delims.TagAhead (tree.print delims.toMarks ++ after) := by
  induction tree with
  | nil => exact hafter
  | literal text rest ih =>
    unfold print
    rw [List.append_assoc]
    exact (ih hwell.2.2).append hwell.1
  | «variable» escaped name rest =>
    rcases clear_variableBody hplain hwell with ⟨b, body, hbody, hclear, _⟩
    unfold print
    rw [hbody, List.append_assoc]
    exact Marks.tagAhead_wrap _ hclear
  | comment text rest =>
    unfold print
    rw [List.append_assoc]
    exact Marks.tagAhead_wrap _ (hplain.clear.cons (by simp) hwell.1)
  | block inverted name body rest =>
    unfold print
    rw [List.append_assoc]
    exact Marks.tagAhead_wrap _ (clear_blockSigil hplain inverted hwell.1)
  | missing name rest =>
    unfold print
    rw [List.append_assoc]
    exact Marks.tagAhead_wrap _ (hwell.2.1.cons (by simp) hwell.1.2.2)
  | insert name content rest =>
    unfold print
    rw [List.append_assoc]
    exact Marks.tagAhead_wrap _ (hwell.2.1.cons (by simp) hwell.1.2.2)

theorem ne_closing_of_ne_slash {b : UInt8} (body : Bytes) (h : b ≠ Tag.slash)
    : Tag.slash :: name ≠ b :: body := by
  intro heq
  injection heq with hslash
  exact h hslash.symm

theorem blockSigil_ne_slash (inverted : Bool) : blockSigil inverted ≠ Tag.slash := by
  cases inverted <;> decide

theorem avoids_print (hplain : delims.Plain) (hname : delims.Clear name)
    (hnot : name ∉ tree.sectionNames) (hwell : tree.WellFormed delims.toMarks) {after : Bytes}
    (hafter : delims.TagAhead after)
    : Bytes.Avoids (delims.wrap (Tag.slash :: name)) (tree.print delims.toMarks ++ after)
        (tree.print delims.toMarks).length := by
  have hclosing := clear_closing hplain hname
  -- The text after the tree is general, because that of a body goes on with its own closing tag.
  induction tree generalizing after with
  | nil => apply Bytes.avoids_zero
  | literal text rest ih =>
    unfold print
    rw [List.append_assoc, List.length_append]
    have := Marks.avoids_clear (rest.print delims.toMarks ++ after)
      (Tag.slash :: name ++ delims.closing) hwell.1
    rw [← List.append_assoc] at this
    exact this.append (ih hnot hwell.2.2 hafter)
  | «variable» escaped name' rest ih =>
    rcases clear_variableBody hplain hwell with ⟨b, body, hbody, hclear, hslash⟩
    unfold print
    rw [hbody, List.append_assoc, List.length_append]
    apply Marks.avoids_wrap hplain.differ hclosing hclear
    . exact ne_closing_of_ne_slash body hslash
    . exact tagAhead_print hplain hwell.2 hafter
    . exact ih hnot hwell.2 hafter
  | comment text rest ih =>
    unfold print
    rw [List.append_assoc, List.length_append]
    apply Marks.avoids_wrap hplain.differ hclosing (hplain.clear.cons (by simp) hwell.1)
    . exact ne_closing_of_ne_slash text (by decide)
    . exact tagAhead_print hplain hwell.2 hafter
    . exact ih hnot hwell.2 hafter
  | block inverted name' body rest ihBody ihRest =>
    rcases hwell with ⟨hclear, _, hwellBody, hwellRest⟩
    unfold sectionNames at hnot
    simp only [List.cons_append, List.mem_cons, List.mem_append, not_or] at hnot
    have hclosing' := clear_closing hplain hclear
    have hrest := Marks.avoids_wrap hplain.differ hclosing hclosing' (by simpa using hnot.1)
      (tagAhead_print hplain hwellRest hafter) (ihRest hnot.2.2 hwellRest hafter)
    have hahead := Marks.tagAhead_wrap (rest.print delims.toMarks ++ after) hclosing'
    unfold print
    simp only [List.append_assoc, List.length_append]
    apply Marks.avoids_wrap hplain.differ hclosing (clear_blockSigil hplain inverted hclear)
    . exact ne_closing_of_ne_slash name' (blockSigil_ne_slash inverted)
    . exact tagAhead_print hplain hwellBody hahead
    . exact (ihBody hnot.2.1 hwellBody hahead).append hrest
  | missing name' rest ih =>
    unfold print
    rw [List.append_assoc, List.length_append]
    apply Marks.avoids_wrap hplain.differ hclosing (hwell.2.1.cons (by simp) hwell.1.2.2)
    . exact ne_closing_of_ne_slash name' (by decide)
    . exact tagAhead_print hplain hwell.2.2 hafter
    . exact ih hnot hwell.2.2 hafter
  | insert name' content rest ihContent ihRest =>
    unfold print
    rw [List.append_assoc, List.length_append]
    apply Marks.avoids_wrap hplain.differ hclosing (hwell.2.1.cons (by simp) hwell.1.2.2)
    . exact ne_closing_of_ne_slash name' (by decide)
    . exact tagAhead_print hplain hwell.2.2.2 hafter
    . exact ihRest hnot hwell.2.2.2 hafter

theorem findClosing?_print (hplain : delims.Plain) (hname : delims.Clear name)
    (hnot : name ∉ tree.sectionNames) (hwell : tree.WellFormed delims.toMarks) {text after : Bytes}
    {pos : Nat}
    (htext : text.drop pos
      = tree.print delims.toMarks ++ (delims.wrap (Tag.slash :: name) ++ after))
    : Tag.findClosing? text delims.toMarks name pos
        =
      some ⟨pos + (tree.print delims.toMarks).length,
        pos + (tree.print delims.toMarks).length + (delims.wrap (Tag.slash :: name)).length⟩ := by
  have hlength := congrArg List.length htext
  simp only [List.length_drop, List.length_append, Marks.wrap, List.length_cons] at hlength
  have hahead := Marks.tagAhead_wrap after (clear_closing hplain hname)
  have havoids := avoids_print hplain hname hnot hwell hahead
  rw [← List.append_assoc] at htext havoids
  unfold Tag.findClosing?
  have hfound := Bytes.find?_eq_of_avoids htext havoids (by omega)
  unfold Tag.closing
  unfold Marks.wrap at hfound
  rw [hfound]
  rfl

theorem not_endsLine_wrap (hplain : delims.Plain) (body after : Bytes)
    : ¬ Bytes.EndsLine (delims.wrap body ++ after) := by
  rcases Marks.opening_eq_cons delims with ⟨b, rest, hopening⟩
  have hb : b ∈ delims.opening := by
    rw [hopening]
    simp
  have hspace : b ≠ Bytes.space := hplain.clear.ne_of_mem_opening (by simp) hb
  have htab : b ≠ Bytes.tab := hplain.clear.ne_of_mem_opening (by simp) hb
  have hnewline : b ≠ Bytes.newline := hplain.clear.ne_of_mem_opening (by simp) hb
  unfold Bytes.EndsLine Marks.wrap
  rw [hopening, List.cons_append, List.cons_append, List.cons_append, List.dropWhile_cons_of_neg]
  . simpa using hnewline
  . simp [Bytes.isBlank, hspace, htab]

theorem not_endsLine_print (hplain : delims.Plain) (hwell : tree.WellFormed delims.toMarks)
    : ¬ Bytes.EndsLine (tree.print delims.toMarks) := by
  induction tree with
  | nil => simp [print, Bytes.EndsLine]
  | literal text rest ih => exact Bytes.not_endsLine_append hwell.2.1 (ih hwell.2.2)
  | «variable» => apply not_endsLine_wrap hplain
  | comment => apply not_endsLine_wrap hplain
  | block => apply not_endsLine_wrap hplain
  | missing => apply not_endsLine_wrap hplain
  | insert => apply not_endsLine_wrap hplain

end Tree

end Mustache
