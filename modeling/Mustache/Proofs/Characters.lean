import Mustache.Proofs.Command
import Mustache.Proofs.Entities
import Mustache.Proofs.Step
import Mustache.Proofs.Utf8
import Mustache.Settings

/-!
This module contains the cuts that are made in a text of whole characters. They lie at marks, newlines
and blanks, so that no character is ever cut in two. Escaping replaces whole characters.
-/

namespace Mustache

namespace Utf8

theorem valid_blanks {bytes : Bytes} (h : ∀ b ∈ bytes, Bytes.isBlank b = true) : Valid bytes := by
  apply valid_of_ascii
  intro b hb
  have hblank := h b hb
  unfold Bytes.isBlank at hblank
  rw [Bool.or_eq_true, beq_iff_eq, beq_iff_eq] at hblank
  rcases hblank with rfl | rfl <;> decide

theorem valid_of_isBlankRest {bytes : Bytes} (h : Bytes.IsBlankRest bytes) : Valid bytes := by
  rcases h with rfl | ⟨blanks, hblanks, rfl⟩
  . exact valid_nil
  . exact (valid_blanks hblanks).append (valid_singleton (by decide))

theorem valid_of_isBreak {bytes : Bytes} (h : Bytes.IsBreak bytes) : Valid bytes := by
  rcases h with rfl | rfl
  . exact valid_nil
  . exact valid_singleton (by decide)

theorem Valid.trim {bytes : Bytes} (h : Valid bytes) : Valid (Bytes.trim bytes) := by
  rcases Bytes.trim_split bytes with ⟨left, right, hleft, hright, hbytes⟩
  rw [hbytes, List.append_assoc] at h
  exact (valid_blanks hright).of_append_right ((valid_blanks hleft).of_append_left h)

theorem Valid.drop_of_slice {text : Bytes} {start stop : Nat} (hslice : Valid (Bytes.slice text start stop))
    (hle : start ≤ stop) (h : Valid (text.drop start))
    : Valid (text.drop stop) := by
  rw [← Bytes.slice_append_drop text hle] at h
  exact hslice.of_append_left h

theorem Valid.slice_of_drop {text : Bytes} {start stop : Nat} (hdrop : Valid (text.drop stop))
    (h : Valid (text.drop start))
    : Valid (Bytes.slice text start stop) := by
  cases Nat.le_total start stop with
  | inl hle =>
    rw [← Bytes.slice_append_drop text hle] at h
    exact hdrop.of_append_right h
  | inr hge =>
    unfold Bytes.slice
    rw [Nat.sub_eq_zero_of_le hge, List.take_zero]
    exact valid_nil

theorem Valid.drop_skipNewline {text : Bytes} {pos : Nat} (h : Valid (text.drop pos))
    : Valid (text.drop (Bytes.skipNewline text pos)) :=
  (valid_of_isBreak (Bytes.isBreak_slice_skipNewline text pos)).drop_of_slice
    (Bytes.le_skipNewline text pos) h

theorem Valid.drop_skipLine {text : Bytes} {pos : Nat} (h : Valid (text.drop pos))
    : Valid (text.drop (Bytes.skipLine text pos)) :=
  (valid_of_isBlankRest (Bytes.isBlankRest_slice_skipLine text pos)).drop_of_slice
    (Bytes.le_skipLine text pos) h

theorem Valid.drop_of_find? {text needle : Bytes} {pos found : Nat} (h : Valid (text.drop pos))
    (hneedle : Valid needle) (hne : needle ≠ []) (hfind : Bytes.find? text needle pos = some found)
    : Valid (text.drop found) ∧ Valid (text.drop (found + needle.length)) := by
  rw [Bytes.find?_eq_some_iff] at hfind
  rcases hfind with ⟨hle, _, ⟨after, hafter⟩, _⟩
  have hboundary : IsBoundary (text.drop found) := by
    intro b hb
    apply hneedle.isBoundary b
    rcases List.exists_cons_of_ne_nil hne with ⟨a, rest, rfl⟩
    rw [← hafter] at hb
    exact hb
  rw [← Bytes.slice_append_drop text hle] at h
  have hdrop := (h.of_isBoundary hboundary).2
  refine ⟨hdrop, ?_⟩
  rw [Bytes.drop_of_drop hafter.symm]
  rw [← hafter] at hdrop
  exact hneedle.of_append_left hdrop

end Utf8

namespace Html

theorem ascii_of_mem_special {b : UInt8} (h : b ∈ special) : b.toNat < 0x80 := by
  revert b
  decide +kernel

theorem flatMap_escapeByte_of_le {bytes : Bytes} (h : ∀ b ∈ bytes, 0x80 ≤ b.toNat)
    : bytes.flatMap escapeByte = bytes := by
  induction bytes with
  | nil => rfl
  | cons b bytes ih =>
    rw [List.forall_mem_cons] at h
    have hplain : b ∉ special := fun hspecial => Nat.not_lt_of_le h.1 (ascii_of_mem_special hspecial)
    rw [List.flatMap_cons, escapeByte_of_not_special hplain, ih h.2]
    rfl

theorem valid_escapeByte {b : UInt8} (h : b.toNat < 0x80) : Utf8.Valid (escapeByte b) := by
  have hentities : ∀ a ∈ special, ∀ c ∈ escapeByte a, c.toNat < 0x80 := by decide +kernel
  cases Decidable.em (b ∈ special) with
  | inl hspecial => exact Utf8.valid_of_ascii (hentities b hspecial)
  | inr hplain =>
    rw [escapeByte_of_not_special hplain]
    exact Utf8.valid_singleton h

theorem valid_flatMap_escapeByte (c : Char)
    : Utf8.Valid ((String.utf8EncodeChar c).flatMap escapeByte) := by
  rcases (Utf8.spelled_utf8EncodeChar c).single_or_high with ⟨a, hsingle, ha⟩ | hhigh
  . rw [hsingle, List.flatMap_singleton]
    exact valid_escapeByte ha
  . rw [flatMap_escapeByte_of_le hhigh]
    exact ⟨[c], by simp [Utf8.encodeAll]⟩

theorem valid_escape {bytes : Bytes} (h : Utf8.Valid bytes) : Utf8.Valid (escape bytes) := by
  rcases h with ⟨chars, rfl⟩
  unfold Utf8.encodeAll
  rw [escape_eq_flatMap, List.flatMap_assoc, List.flatMap_def]
  apply Utf8.valid_flatten
  intro piece hpiece
  rw [List.mem_map] at hpiece
  rcases hpiece with ⟨c, _, rfl⟩
  exact valid_flatMap_escapeByte c

end Html

namespace Escape

theorem valid_apply (choice : Escape) {bytes : Bytes} (h : Utf8.Valid bytes)
    : Utf8.Valid (choice.apply bytes) := by
  cases choice with
  | html => exact Html.valid_escape h
  | none => exact h

end Escape

namespace Delimiters

structure Valid (delims : Delimiters) : Prop where
  opening : Utf8.Valid delims.opening
  closing : Utf8.Valid delims.closing

theorem valid_standard : standard.Valid :=
  ⟨Utf8.valid_of_all (by decide), Utf8.valid_of_all (by decide)⟩

theorem valid_of_ofCommand? {body : Bytes} {new : Delimiters} (hbody : Utf8.Valid (body.drop 1))
    (h : ofCommand? body = some new)
    : new.Valid := by
  rcases ofCommand?_eq_some h with ⟨sigil, left, right, hleft, hright, _, rfl⟩
  have hmarks : Utf8.Valid (new.opening ++ Bytes.space :: new.closing) := by
    rw [List.drop_succ_cons, List.drop_zero, List.append_assoc, List.append_assoc] at hbody
    apply (Utf8.valid_blanks hright).append (Utf8.valid_singleton _) |>.of_append_right
    . exact (Utf8.valid_blanks hleft).of_append_left hbody
    . decide
  have hboundary : Utf8.IsBoundary (Bytes.space :: new.closing) := by
    intro b hb
    rw [List.head?_cons, Option.mem_some] at hb
    rw [← hb]
    unfold Utf8.IsTail
    decide
  have hsplit := hmarks.of_isBoundary hboundary
  exact ⟨hsplit.1, (Utf8.valid_singleton (by decide)).of_append_left hsplit.2⟩

end Delimiters

namespace Tag

variable {text name : Bytes} {delims : Delimiters} {pos : Nat} {tag : Tag}

theorem valid_endMark (hdelims : delims.Valid) (sigil : UInt8)
    : Utf8.Valid (endMark delims.toMarks sigil) := by
  unfold endMark
  split
  . exact Utf8.valid_of_all (by decide)
  . exact hdelims.closing

theorem valid_of_find? (h : Utf8.Valid (text.drop pos)) (hdelims : delims.Valid)
    (htag : find? text delims.toMarks pos = some tag)
    : Utf8.Valid (Bytes.slice text pos tag.start) ∧ Utf8.Valid tag.body
        ∧ Utf8.Valid (text.drop tag.stop) := by
  rw [find?_eq_some_iff] at htag
  rcases htag with ⟨bodyStop, hstart, _, hbodyStop, hstop, hbody⟩
  have hopening := h.drop_of_find? hdelims.opening delims.opening_ne_nil hstart
  have hclosing := hopening.2.drop_of_find? (valid_endMark hdelims tag.sigil)
    (List.ne_nil_of_length_pos (length_endMark_pos delims tag.sigil)) hbodyStop
  rw [hbody, hstop]
  exact ⟨hopening.1.slice_of_drop h, hclosing.1.slice_of_drop hopening.2, hclosing.2⟩

theorem body_of_find? {marks : Marks} (htag : find? text marks pos = some tag)
    : tag.body = [] ∨ ∃ rest, tag.body = tag.sigil :: rest := by
  rw [find?_eq_some_iff] at htag
  rcases htag with ⟨bodyStop, _, hsigil, _, _, hbody⟩
  rw [hbody]
  unfold Bytes.slice
  rw [← List.head?_drop] at hsigil
  rcases List.head?_eq_some_iff.mp hsigil with ⟨rest, hrest⟩
  rw [hrest]
  cases bodyStop - (tag.start + marks.opening.length) with
  | zero => exact .inl rfl
  | succ count => exact .inr ⟨rest.take count, rfl⟩

theorem valid_drop_body {marks : Marks} (htag : find? text marks pos = some tag)
    (hbody : Utf8.Valid tag.body) (hsigil : tag.sigil.toNat < 0x80)
    : Utf8.Valid (tag.body.drop 1) := by
  rcases body_of_find? htag with hnil | ⟨rest, hrest⟩
  . rw [hnil]
    exact Utf8.valid_nil
  . rw [hrest] at hbody ⊢
    exact (Utf8.valid_singleton hsigil).of_append_left hbody

theorem valid_of_findClosing? {closing : Span} (h : Utf8.Valid (text.drop pos)) (hdelims : delims.Valid)
    (hname : Utf8.Valid name) (hclosing : findClosing? text delims.toMarks name pos = some closing)
    : Utf8.Valid (text.drop closing.start) ∧ Utf8.Valid (text.drop closing.stop) := by
  unfold findClosing? at hclosing
  rw [Option.map_eq_some_iff] at hclosing
  rcases hclosing with ⟨start, hstart, rfl⟩
  apply h.drop_of_find? _ _ hstart
  . exact (hdelims.opening.append
      (((Utf8.valid_singleton (by decide : slash.toNat < 0x80)).append hname))).append hdelims.closing
  . simp [Tag.closing]

end Tag

end Mustache
