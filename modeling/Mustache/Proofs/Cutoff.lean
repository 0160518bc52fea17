import Mustache.Proofs.Step

/-!
This module contains searches in a text that is cut off. What ends before the cut is found where it is found in
the whole text, and nothing else is found there.
-/

namespace Mustache

namespace Bytes

variable {text : Bytes} {pos cut : Nat}

theorem prefix_drop_take_iff {needle : Bytes} (text : Bytes) (i cut : Nat) (hne : needle ≠ [])
    : needle <+: (text.take cut).drop i ↔ needle <+: text.drop i ∧ i + needle.length ≤ cut := by
  have hpos := List.length_pos_iff.mpr hne
  rw [List.drop_take, List.prefix_take_iff]
  apply and_congr_right
  intro _
  omega

theorem find?_take {needle : Bytes} (text : Bytes) (pos cut : Nat) (hne : needle ≠ [])
    : find? (text.take cut) needle pos
        =
      (find? text needle pos).filter fun found => found + needle.length ≤ cut := by
  apply Option.ext
  intro found
  rw [Option.filter_eq_some_iff, find?_eq_some_iff, find?_eq_some_iff, List.length_take]
  simp only [prefix_drop_take_iff text _ cut hne, decide_eq_true_eq]
  constructor
  . rintro ⟨hle, hfound, ⟨hoccurs, hcut⟩, hfirst⟩
    refine ⟨⟨hle, by omega, hoccurs, ?_⟩, hcut⟩
    intro i hi hlt hoccurs'
    exact hfirst i hi hlt ⟨hoccurs', by omega⟩
  . rintro ⟨⟨hle, hfound, hoccurs, hfirst⟩, hcut⟩
    refine ⟨hle, by omega, ⟨hoccurs, hcut⟩, ?_⟩
    intro i hi hlt hoccurs'
    exact hfirst i hi hlt hoccurs'.1

theorem slice_take (text : Bytes) {start stop : Nat} (h : stop ≤ cut)
    : slice (text.take cut) start stop = slice text start stop := by
  unfold slice
  rw [List.drop_take, List.take_take]
  congr
  omega

theorem skipNewline_take (h : skipNewline text pos ≤ cut)
    : skipNewline (text.take cut) pos = skipNewline text pos := by
  have hnewline : (text.take cut)[pos]? = some newline ↔ text[pos]? = some newline := by
    rw [List.getElem?_take]
    split
    . rfl
    . next hcut =>
      unfold skipNewline at h
      split at h
      . omega
      . next hother => simp [hother]
  unfold skipNewline
  simp only [hnewline]

theorem skipLine_take (h : skipLine text pos ≤ cut)
    : skipLine (text.take cut) pos = skipLine text pos := by
  unfold skipLine at h ⊢
  dsimp only at h ⊢
  rw [List.drop_take, ← List.take_takeWhile, List.length_take, List.getElem?_take]
  generalize ((text.drop pos).takeWhile isBlank).length = blanks at h ⊢
  split at h
  . next hnewline =>
    have hblanks : min (cut - pos) blanks = blanks := by omega
    rw [hblanks, if_pos (show pos + blanks < cut by omega)]
  . next hnewline =>
    rw [if_neg hnewline, if_neg]
    split
    . next hlt =>
      have hblanks : min (cut - pos) blanks = blanks := by omega
      rw [hblanks]
      exact hnewline
    -- The cut is among the blanks, and no newline follows there.
    . simp

end Bytes

namespace Tag

variable {text : Bytes} {cut : Nat}

theorem find?_take (text : Bytes) (delims : Delimiters) (pos cut : Nat)
    : find? (text.take cut) delims.toMarks pos
        =
      (find? text delims.toMarks pos).filter fun tag => tag.stop ≤ cut := by
  apply Option.ext
  intro tag
  have hmark := length_endMark_pos delims tag.sigil
  rw [Option.filter_eq_some_iff, find?_eq_some_iff, find?_eq_some_iff, List.getElem?_take,
    Bytes.find?_take _ _ _ delims.opening_ne_nil, Bytes.find?_take _ _ _ (List.length_pos_iff.mp hmark)]
  simp only [Option.filter_eq_some_iff, decide_eq_true_eq]
  constructor
  . rintro ⟨bodyStop, ⟨hstart, _⟩, hsigil, ⟨hstop, hcut⟩, htagStop, hbody⟩
    have hbounds := Bytes.find?_bounds hstop
    rw [if_pos (show tag.start + delims.opening.length < cut by omega)] at hsigil
    rw [Bytes.slice_take text (show bodyStop ≤ cut by omega)] at hbody
    exact ⟨⟨bodyStop, hstart, hsigil, hstop, htagStop, hbody⟩, by omega⟩
  . rintro ⟨⟨bodyStop, hstart, hsigil, hstop, htagStop, hbody⟩, hcut⟩
    have hbounds := Bytes.find?_bounds hstop
    refine ⟨bodyStop, ⟨hstart, by omega⟩, ?_, ⟨hstop, by omega⟩, htagStop, ?_⟩
    . rwa [if_pos (by omega)]
    . rwa [Bytes.slice_take text (by omega)]

theorem findClosing?_take (text : Bytes) (marks : Marks) (name : Bytes) (pos cut : Nat)
    : findClosing? (text.take cut) marks name pos
        =
      (findClosing? text marks name pos).filter fun closing => closing.stop ≤ cut := by
  unfold findClosing?
  rw [Bytes.find?_take text pos cut (closing_ne_nil marks name), Option.filter_map]
  rfl

end Tag

namespace Step

variable {text : Bytes} {delims : Delimiters} {tag : Tag} {pos cut : Nat} {step : Step}

theorem ofSection_take {inverted : Bool} (h : (ofSection text delims tag inverted).resume ≤ cut)
    : ofSection (text.take cut) delims tag inverted = ofSection text delims tag inverted := by
  unfold ofSection at h ⊢
  dsimp only at h ⊢
  rw [Tag.findClosing?_take]
  split at h
  . next hnone =>
    rw [hnone]
    rfl
  . next closing hclosing =>
    have hbounds := Tag.findClosing?_bounds hclosing
    have hskip := Bytes.le_skipNewline text closing.stop
    have hstop : closing.stop ≤ cut := by
      dsimp only at h
      split at h <;> omega
    have hopening : Bytes.skipNewline text tag.stop ≤ cut := by
      unfold Bytes.skipNewline
      split <;> omega
    rw [hclosing, Option.filter_some_pos (by simpa using hstop)]
    dsimp only
    rw [Bytes.skipNewline_take hopening, Bytes.slice_take text (show closing.start ≤ cut by omega)]
    split at h
    . next hnewline => rw [if_pos hnewline, if_pos hnewline, Bytes.skipNewline_take h]
    . next hnewline => rw [if_neg hnewline, if_neg hnewline]

theorem ofTag_take (h : (ofTag text delims tag).resume ≤ cut)
    : ofTag (text.take cut) delims tag = ofTag text delims tag := by
  unfold ofTag at h ⊢
  split
  . rfl
  next hcomment =>
  rw [if_neg hcomment] at h
  split
  . rfl
  next hraw =>
  rw [if_neg hraw] at h
  split
  . next hsection =>
    rw [if_pos hsection] at h
    exact ofSection_take h
  next hsection =>
  rw [if_neg hsection] at h
  split
  . next hinverted =>
    rw [if_pos hinverted] at h
    exact ofSection_take h
  next hinverted =>
  rw [if_neg hinverted] at h
  split
  . next hcommand =>
    rw [if_pos hcommand] at h
    split at h
    . rfl
    . rw [Bytes.skipLine_take h]
  next hcommand =>
  rw [if_neg hcommand] at h
  split
  . next hpartial =>
    rw [if_pos hpartial] at h
    rw [Bytes.skipLine_take h]
  . rfl

theorem next?_take (h : next? text delims pos = some step) (hcut : step.resume ≤ cut)
    : next? (text.take cut) delims pos = some step := by
  have hbounds := next?_bounds h
  rcases next?_eq_some h with ⟨htag, hstep⟩
  unfold next?
  rw [Tag.find?_take, htag, Option.filter_some_pos, Option.map_some, ofTag_take, ← hstep]
  . rwa [← hstep]
  . exact decide_eq_true (by omega)

theorem next?_take_start (h : next? text delims pos = some step)
    : next? (text.take step.tag.start) delims pos = none := by
  have hbounds := next?_bounds h
  rcases next?_eq_some h with ⟨htag, _⟩
  unfold next?
  rw [Tag.find?_take, htag, Option.filter_some_neg, Option.map_none]
  exact decide_eq_false (by omega)

end Step

end Mustache
