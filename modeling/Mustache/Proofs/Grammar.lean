import Mathlib.Order.Bounds.Defs
import Mustache.Proofs.Find

/-!
This module contains the grammar of tags, without searches: where a tag begins, which byte is its sigil, and
where it ends, as first occurrences of its marks. The tags that are found one after the other, together with
the text between them, make up the text.
-/

namespace Mustache

namespace Bytes

theorem find?_eq_some_iff_isLeast {needle : Bytes} (text : Bytes) (start found : Nat) (hne : needle ≠ [])
    : find? text needle start = some found
        ↔
      IsLeast {i | start ≤ i ∧ needle <+: text.drop i} found := by
  rw [find?_eq_some_iff]
  constructor
  . rintro ⟨hle, _, hoccurs, hfirst⟩
    refine ⟨⟨hle, hoccurs⟩, ?_⟩
    rintro i ⟨hi, hoccurs'⟩
    apply Nat.le_of_not_lt
    intro hlt
    exact hfirst i hi hlt hoccurs'
  . rintro ⟨⟨hle, hoccurs⟩, hleast⟩
    have hlength := add_length_le_of_occurs hne hoccurs
    refine ⟨hle, by omega, hoccurs, ?_⟩
    intro i hi hlt hoccurs'
    exact Nat.not_lt_of_le (hleast ⟨hi, hoccurs'⟩) hlt

theorem exists_find?_of_occurs {text needle : Bytes} {start i : Nat} (hne : needle ≠ []) (hi : start ≤ i)
    (hoccurs : needle <+: text.drop i)
    : ∃ found, find? text needle start = some found := by
  have hlength := add_length_le_of_occurs hne hoccurs
  cases hfound : find? text needle start with
  | some found => exact ⟨found, rfl⟩
  | none =>
    rw [find?_eq_none_iff needle (by omega)] at hfound
    have hnone := hfound (i - start)
    rw [List.length_drop, List.drop_drop, Nat.add_sub_cancel' hi] at hnone
    exact absurd hoccurs (hnone (by omega))

end Bytes

namespace Tag

/--
The first tag at or after `pos`: it begins where the first opening mark stands, and ends with the first mark
behind it that closes tags with its sigil.
-/
structure IsNext (text : Bytes) (marks : Marks) (pos : Nat) (tag : Tag) : Prop where
  opening : IsLeast {i | pos ≤ i ∧ marks.opening <+: text.drop i} tag.start
  sigil : text[tag.start + marks.opening.length]? = some tag.sigil
  closing : ∃ bodyStop,
    IsLeast {i | tag.start + marks.opening.length ≤ i ∧ endMark marks tag.sigil <+: text.drop i} bodyStop
      ∧ tag.body = Bytes.slice text (tag.start + marks.opening.length) bodyStop
      ∧ tag.stop = bodyStop + (endMark marks tag.sigil).length

/-- How the text of a tag is put together. If its body is empty, the mark at its end begins with the sigil. -/
structure Spelled (text : Bytes) (marks : Marks) (tag : Tag) : Prop where
  span : Bytes.slice text tag.start tag.stop = marks.opening ++ tag.body ++ endMark marks tag.sigil
  sigil : (tag.body ++ endMark marks tag.sigil).head? = some tag.sigil
  body : ¬ endMark marks tag.sigil <:+: tag.body

/-- There is an opening mark, a byte behind the first one, and a mark that closes tags with this byte. -/
def IsAhead (text : Bytes) (marks : Marks) (pos : Nat) : Prop :=
  ∃ start sigil, IsLeast {i | pos ≤ i ∧ marks.opening <+: text.drop i} start
    ∧ text[start + marks.opening.length]? = some sigil
    ∧ ∃ i, start + marks.opening.length ≤ i ∧ endMark marks sigil <+: text.drop i

/-- The tags that are found one after the other, each from where the one before it stops, until there is none. -/
inductive Succession (text : Bytes) (marks : Marks) : Nat → List Tag → Prop where
  | nil {pos : Nat} (h : find? text marks pos = none) : Succession text marks pos []
  | cons {pos : Nat} {tag : Tag} {tags : List Tag} (h : find? text marks pos = some tag)
    (rest : Succession text marks tag.stop tags) : Succession text marks pos (tag :: tags)

/-- The texts of the tags, with the text from `pos` on that stands before, between and after them. -/
def assemble (text : Bytes) (marks : Marks) (pos : Nat) (tags : List Tag) : Bytes :=
  match tags with
  | [] => text.drop pos
  | tag :: tags => Bytes.slice text pos tag.start ++ tag.span marks ++ assemble text marks tag.stop tags

/-- The tags stand in the text from `pos` on one behind the other. -/
structure Tile (text : Bytes) (marks : Marks) (pos : Nat) (tags : List Tag) : Prop where
  within : ∀ tag ∈ tags, pos ≤ tag.start ∧ tag.start < tag.stop ∧ tag.stop ≤ text.length
  disjoint : tags.Pairwise fun earlier later => earlier.stop ≤ later.start
  pieces : assemble text marks pos tags = text.drop pos

variable {text : Bytes} {delims : Delimiters} {pos : Nat} {tag : Tag} {tags : List Tag}

theorem find?_eq_some_iff_isNext (text : Bytes) (delims : Delimiters) (pos : Nat) (tag : Tag)
    : find? text delims.toMarks pos = some tag ↔ IsNext text delims.toMarks pos tag := by
  have hmark := List.length_pos_iff.mp (length_endMark_pos delims tag.sigil)
  simp only [find?_eq_some_iff, Bytes.find?_eq_some_iff_isLeast text _ _ delims.opening_ne_nil,
    Bytes.find?_eq_some_iff_isLeast text _ _ hmark]
  constructor
  . rintro ⟨bodyStop, hopening, hsigil, hclosing, hstop, hbody⟩
    exact ⟨hopening, hsigil, bodyStop, hclosing, hbody, hstop⟩
  . rintro ⟨hopening, hsigil, bodyStop, hclosing, hbody, hstop⟩
    exact ⟨bodyStop, hopening, hsigil, hclosing, hstop, hbody⟩

theorem exists_find?_iff (text : Bytes) (delims : Delimiters) (pos : Nat)
    : (∃ tag, find? text delims.toMarks pos = some tag) ↔ IsAhead text delims.toMarks pos := by
  constructor
  . rintro ⟨tag, htag⟩
    rw [find?_eq_some_iff_isNext] at htag
    rcases htag.closing with ⟨bodyStop, hclosing, _⟩
    exact ⟨tag.start, tag.sigil, htag.opening, htag.sigil, bodyStop, hclosing.1⟩
  . rintro ⟨start, sigil, hopening, hsigil, i, hi, hoccurs⟩
    have hmark := List.length_pos_iff.mp (length_endMark_pos delims sigil)
    rcases Bytes.exists_find?_of_occurs hmark hi hoccurs with ⟨bodyStop, hstop⟩
    rw [← Bytes.find?_eq_some_iff_isLeast text _ _ delims.opening_ne_nil] at hopening
    unfold find?
    rw [hopening]
    dsimp only
    rw [hsigil]
    dsimp only
    rw [hstop]
    exact ⟨_, rfl⟩

theorem IsNext.spelled (h : IsNext text delims.toMarks pos tag) : Spelled text delims.toMarks tag := by
  have hspan := slice_of_find? ((find?_eq_some_iff_isNext text delims pos tag).mpr h)
  have hmark := List.length_pos_iff.mp (length_endMark_pos delims tag.sigil)
  rcases h.closing with ⟨bodyStop, hclosing, hbody, _⟩
  rcases hclosing.1.2 with ⟨after, hafter⟩
  constructor
  . exact hspan
  . have hsplit := Bytes.slice_append_drop text hclosing.1.1
    rw [← hbody, ← hafter, ← List.append_assoc] at hsplit
    have hne : tag.body ++ endMark delims.toMarks tag.sigil ≠ [] := by simp [hmark]
    rcases List.exists_cons_of_ne_nil hne with ⟨b, rest, hcons⟩
    have hsigil := h.sigil
    rw [← List.head?_drop, ← hsplit, hcons] at hsigil
    rw [hcons]
    exact hsigil
  . rw [hbody]
    apply Bytes.not_infix_slice hmark
    intro i hi hlt hoccurs
    exact Nat.not_lt_of_le (hclosing.2 ⟨hi, hoccurs⟩) hlt

theorem all_of_none {marks : Marks} (h : find? text marks pos = none) : all text marks pos = [] := by
  rw [all]
  split
  . rfl
  . next htag =>
    rw [h] at htag
    contradiction

theorem all_of_some (h : find? text delims.toMarks pos = some tag)
    : all text delims.toMarks pos = tag :: all text delims.toMarks tag.stop := by
  have hbounds := find?_bounds h
  rw [all]
  split
  . next htag =>
    rw [h] at htag
    contradiction
  . next htag =>
    rw [h, Option.some.injEq] at htag
    subst htag
    rw [dif_pos ⟨by omega, hbounds.2.2⟩]

theorem succession_all (text : Bytes) (delims : Delimiters) (pos : Nat)
    : Succession text delims.toMarks pos (all text delims.toMarks pos) := by
  cases h : find? text delims.toMarks pos with
  | none =>
    rw [all_of_none h]
    exact .nil h
  | some tag =>
    have := find?_bounds h
    rw [all_of_some h]
    exact .cons h (succession_all text delims tag.stop)
termination_by text.length - pos

theorem Succession.eq_all (h : Succession text delims.toMarks pos tags)
    : tags = all text delims.toMarks pos := by
  induction h with
  | nil hnone => rw [all_of_none hnone]
  | cons htag _ ih => rw [all_of_some htag, ← ih]

theorem Succession.tile (h : Succession text delims.toMarks pos tags) : Tile text delims.toMarks pos tags := by
  induction h with
  | nil => exact ⟨by simp, .nil, rfl⟩
  | @cons pos tag tags htag _ ih =>
    have hbounds := find?_bounds htag
    constructor
    . rw [List.forall_mem_cons]
      refine ⟨hbounds, ?_⟩
      intro later hlater
      have := ih.within later hlater
      omega
    . rw [List.pairwise_cons]
      refine ⟨?_, ih.disjoint⟩
      intro later hlater
      exact (ih.within later hlater).1
    . unfold assemble
      rw [ih.pieces, ← slice_of_find? htag, Bytes.slice_append_slice, Bytes.slice_append_drop] <;> omega

/--
A search for a tag finds what the grammar says, and nothing only if there is nothing to find. Searches that go
on where the tag before stops come to an end, and they leave out no part of the text.
-/
theorem find?_grammar (text : Bytes) (delims : Delimiters) (pos : Nat)
    : (∀ tag, find? text delims.toMarks pos = some tag ↔ IsNext text delims.toMarks pos tag)
        ∧ ((∃ tag, find? text delims.toMarks pos = some tag) ↔ IsAhead text delims.toMarks pos)
        ∧ (∀ tag, IsNext text delims.toMarks pos tag → Spelled text delims.toMarks tag)
        ∧ (∀ tags, Succession text delims.toMarks pos tags ↔ tags = all text delims.toMarks pos)
        ∧ Tile text delims.toMarks pos (all text delims.toMarks pos) := by
  have hall := succession_all text delims pos
  refine ⟨?_, ?_, ?_, ?_, ?_⟩
  . intro tag
    exact find?_eq_some_iff_isNext text delims pos tag
  . exact exists_find?_iff text delims pos
  . intro tag h
    exact h.spelled
  . intro tags
    constructor
    . exact Succession.eq_all
    . rintro rfl
      exact hall
  . exact hall.tile

/-- The byte behind an opening mark may belong to the mark that closes the tag. -/
theorem find?_grammar_empty_body
    : let marks : Delimiters := ⟨⟨Bytes.ofAscii "ab", Bytes.ofAscii "aba"⟩, by decide, by decide⟩
      let text := Bytes.ofAscii "cabababab"
      let tag : Tag := ⟨1, 6, 0x61, []⟩
      find? text marks.toMarks 0 = some tag ∧ IsNext text marks.toMarks 0 tag
        ∧ Spelled text marks.toMarks tag := by
  intro marks text tag
  have htag : find? text marks.toMarks 0 = some tag := by decide +kernel
  have hgrammar := find?_grammar text marks 0
  have hnext := (hgrammar.1 tag).mp htag
  exact ⟨htag, hnext, hgrammar.2.2.1 tag hnext⟩

end Tag

end Mustache
