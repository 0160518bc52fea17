import Mustache.Tag

/-!
This module contains the specification of searches: what `find?` returns is the first occurrence. Tags
and closing tags are cut out of the text at such occurrences.
-/

namespace Mustache

namespace Bytes

theorem slice_append_slice (text : Bytes) {start middle stop : Nat} (h₁ : start ≤ middle)
    (h₂ : middle ≤ stop)
    : slice text start middle ++ slice text middle stop = slice text start stop := by
  unfold slice
  have hdrop : text.drop middle = (text.drop start).drop (middle - start) := by
    rw [List.drop_drop]
    congr
    omega
  have hlength : stop - start = (middle - start) + (stop - middle) := by omega
  rw [hdrop, hlength, List.take_add]

theorem slice_append_drop (text : Bytes) {start stop : Nat} (h : start ≤ stop)
    : slice text start stop ++ text.drop stop = text.drop start := by
  unfold slice
  have hdrop : text.drop stop = (text.drop start).drop (stop - start) := by
    rw [List.drop_drop]
    congr
    omega
  rw [hdrop, List.take_append_drop]

theorem slice_infix (text : Bytes) (start stop : Nat) : slice text start stop <:+: text := by
  unfold slice
  exact (List.take_prefix _ _).isInfix.trans (List.drop_suffix _ _).isInfix

theorem drop_of_drop {text before after : Bytes} {start : Nat} (h : text.drop start = before ++ after)
    : text.drop (start + before.length) = after := by
  rw [← List.drop_drop, h, List.drop_left]

theorem slice_eq_of_drop {text before after : Bytes} {start : Nat}
    (h : text.drop start = before ++ after)
    : slice text start (start + before.length) = before := by
  unfold slice
  rw [h]
  simp

theorem slice_eq_of_prefix {text needle : Bytes} {start : Nat} (h : needle <+: text.drop start)
    : slice text start (start + needle.length) = needle := by
  rcases h with ⟨after, hafter⟩
  exact slice_eq_of_drop hafter.symm

theorem add_length_le_of_occurs {text needle : Bytes} {i : Nat} (hne : needle ≠ [])
    (h : needle <+: text.drop i)
    : i + needle.length ≤ text.length := by
  have hlength := h.length_le
  have := List.length_pos_iff.mpr hne
  rw [List.length_drop] at hlength
  omega

theorem find?.go_eq_some_iff (needle rest : Bytes) (offset found : Nat)
    : find?.go needle rest offset = some found
        ↔
      ∃ count ≤ rest.length, found = offset + count ∧ needle <+: rest.drop count
        ∧ ∀ i < count, ¬ needle <+: rest.drop i := by
  induction rest generalizing offset with
  | nil =>
    unfold find?.go
    simp only [List.isEmpty_iff, List.length_nil, Nat.le_zero_eq, List.drop_nil, List.prefix_nil]
    split
    . next hempty =>
      simp [hempty, eq_comm]
    . next hempty =>
      simp [hempty]
  | cons b rest ih =>
    unfold find?.go
    split
    . next hmatch =>
      rw [List.isPrefixOf_iff_prefix] at hmatch
      constructor
      . intro h
        simp only [Option.some.injEq] at h
        exact ⟨0, by omega, by omega, hmatch, by omega⟩
      . intro h
        rcases h with ⟨count, _, hfound, _, hfirst⟩
        have : ¬ 0 < count := fun hcount => hfirst 0 hcount hmatch
        simp only [Option.some.injEq]
        omega
    . next hmatch =>
      rw [List.isPrefixOf_iff_prefix] at hmatch
      rw [ih]
      constructor
      . intro h
        rcases h with ⟨count, hcount, hfound, hoccurs, hfirst⟩
        refine ⟨count + 1, by simpa using hcount, by omega, hoccurs, ?_⟩
        intro i hi
        cases i with
        | zero => exact hmatch
        | succ i => exact hfirst i (by omega)
      . intro h
        rcases h with ⟨count, hcount, hfound, hoccurs, hfirst⟩
        cases count with
        | zero => exact absurd hoccurs hmatch
        | succ count =>
          refine ⟨count, by simpa using hcount, by omega, hoccurs, ?_⟩
          intro i hi
          exact hfirst (i + 1) (by omega)

theorem find?.go_eq_none_iff (needle rest : Bytes) (offset : Nat)
    : find?.go needle rest offset = none ↔ ∀ i ≤ rest.length, ¬ needle <+: rest.drop i := by
  induction rest generalizing offset with
  | nil =>
    unfold find?.go
    simp only [List.isEmpty_iff, List.length_nil, Nat.le_zero_eq, List.drop_nil, List.prefix_nil]
    split
    . next hempty => simp [hempty]
    . next hempty => simp [hempty]
  | cons b rest ih =>
    unfold find?.go
    split
    . next hmatch =>
      rw [List.isPrefixOf_iff_prefix] at hmatch
      simp only [reduceCtorEq, false_iff]
      intro h
      exact h 0 (Nat.zero_le _) hmatch
    . next hmatch =>
      rw [List.isPrefixOf_iff_prefix] at hmatch
      rw [ih]
      constructor
      . intro h i hi
        cases i with
        | zero => exact hmatch
        | succ i => exact h i (by simpa using hi)
      . intro h i hi
        exact h (i + 1) (by simpa using hi)

theorem find?_eq_some_iff (text needle : Bytes) (start found : Nat)
    : find? text needle start = some found
        ↔
      start ≤ found ∧ found ≤ text.length ∧ needle <+: text.drop found
        ∧ ∀ i, start ≤ i → i < found → ¬ needle <+: text.drop i := by
  unfold find?
  split
  . next hstart =>
    rw [find?.go_eq_some_iff]
    simp only [List.length_drop, List.drop_drop]
    constructor
    . intro h
      rcases h with ⟨count, hcount, rfl, hoccurs, hfirst⟩
      refine ⟨by omega, by omega, hoccurs, ?_⟩
      intro i hi hlt
      have := hfirst (i - start) (by omega)
      rwa [Nat.add_sub_cancel' hi] at this
    . intro h
      rcases h with ⟨hle, hfound, hoccurs, hfirst⟩
      refine ⟨found - start, by omega, by omega, ?_, ?_⟩
      . rwa [Nat.add_sub_cancel' hle]
      . intro i hi
        exact hfirst (start + i) (by omega) (by omega)
  . next hstart =>
    simp only [reduceCtorEq, false_iff]
    omega

theorem find?_eq_none_iff {text : Bytes} {start : Nat} (needle : Bytes) (h : start ≤ text.length)
    : find? text needle start = none ↔ ∀ i ≤ (text.drop start).length, ¬ needle <+: (text.drop start).drop i := by
  unfold find?
  rw [if_pos h, find?.go_eq_none_iff]

theorem not_infix_slice {text needle : Bytes} {start stop : Nat} (hne : needle ≠ [])
    (h : ∀ i, start ≤ i → i < stop → ¬ needle <+: text.drop i)
    : ¬ needle <:+: slice text start stop := by
  rintro ⟨before, after, hsplit⟩
  have hpos := List.length_pos_iff.mpr hne
  have hlength := length_slice_le text start stop
  rw [← hsplit, List.length_append, List.length_append] at hlength
  apply h (start + before.length)
  . omega
  . omega
  . have hprefix : before ++ needle <+: text.drop start := by
      apply (List.prefix_append _ after).trans
      rw [hsplit]
      apply List.take_prefix
    rcases hprefix with ⟨rest, hrest⟩
    rw [List.append_assoc] at hrest
    rw [drop_of_drop hrest.symm]
    apply List.prefix_append

end Bytes

namespace Tag

def span (marks : Marks) (tag : Tag) : Bytes :=
  marks.opening ++ tag.body ++ endMark marks tag.sigil

theorem find?_eq_some_iff (text : Bytes) (marks : Marks) (pos : Nat) (tag : Tag)
    : find? text marks pos = some tag
        ↔
      ∃ bodyStop, Bytes.find? text marks.opening pos = some tag.start
        ∧ text[tag.start + marks.opening.length]? = some tag.sigil
        ∧ Bytes.find? text (endMark marks tag.sigil) (tag.start + marks.opening.length) = some bodyStop
        ∧ tag.stop = bodyStop + (endMark marks tag.sigil).length
        ∧ tag.body = Bytes.slice text (tag.start + marks.opening.length) bodyStop := by
  unfold find?
  constructor
  . intro h
    split at h
    . contradiction
    . next start hstart =>
      dsimp at h
      split at h
      . contradiction
      . next sigil hsigil =>
        split at h
        . contradiction
        . next bodyStop hstop =>
          rw [Option.some.injEq] at h
          subst h
          exact ⟨bodyStop, hstart, hsigil, hstop, rfl, rfl⟩
  . intro h
    rcases h with ⟨bodyStop, hstart, hsigil, hstop, htagStop, hbody⟩
    rw [hstart]
    dsimp
    rw [hsigil]
    dsimp
    rw [hstop]
    dsimp
    rw [← htagStop, ← hbody]

theorem slice_of_find? {text : Bytes} {marks : Marks} {pos : Nat} {tag : Tag}
    (h : find? text marks pos = some tag)
    : Bytes.slice text tag.start tag.stop = tag.span marks := by
  rw [find?_eq_some_iff] at h
  rcases h with ⟨bodyStop, hstart, _, hstop, htagStop, hbody⟩
  rw [Bytes.find?_eq_some_iff] at hstart hstop
  have hopening := Bytes.slice_eq_of_prefix hstart.2.2.1
  have hclosing := Bytes.slice_eq_of_prefix hstop.2.2.1
  calc Bytes.slice text tag.start tag.stop
    _ = Bytes.slice text tag.start (tag.start + marks.opening.length)
          ++ Bytes.slice text (tag.start + marks.opening.length) bodyStop
          ++ Bytes.slice text bodyStop tag.stop := by
      rw [Bytes.slice_append_slice, Bytes.slice_append_slice] <;> omega
    _ = tag.span marks := by
      rw [hopening, ← hbody, htagStop, hclosing]
      rfl

theorem closing_ne_nil (marks : Marks) (name : Bytes) : closing marks name ≠ [] := by
  simp [closing]

theorem findClosing?_first {text name : Bytes} {marks : Marks} {pos : Nat} {span : Span}
    (h : findClosing? text marks name pos = some span)
    : closing marks name <+: text.drop span.start
        ∧ ∀ i, pos ≤ i → i < span.start → ¬ closing marks name <+: text.drop i := by
  unfold findClosing? at h
  rw [Option.map_eq_some_iff] at h
  rcases h with ⟨start, hstart, rfl⟩
  rw [Bytes.find?_eq_some_iff] at hstart
  exact hstart.2.2

theorem slice_of_findClosing? {text name : Bytes} {marks : Marks} {pos : Nat} {span : Span}
    (h : findClosing? text marks name pos = some span)
    : Bytes.slice text span.start span.stop = closing marks name := by
  unfold findClosing? at h
  rw [Option.map_eq_some_iff] at h
  rcases h with ⟨start, hstart, rfl⟩
  rw [Bytes.find?_eq_some_iff] at hstart
  exact Bytes.slice_eq_of_prefix hstart.2.2.1

theorem findClosing?_eq_none {text name : Bytes} {marks : Marks} (pos : Nat)
    (h : ¬ closing marks name <:+: text)
    : findClosing? text marks name pos = none := by
  cases hclosing : findClosing? text marks name pos with
  | none => rfl
  | some span =>
    rw [← slice_of_findClosing? hclosing] at h
    exact absurd (Bytes.slice_infix text span.start span.stop) h

end Tag

end Mustache
