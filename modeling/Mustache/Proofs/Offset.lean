import Mustache.Proofs.Marks

/-!
This module contains searches in what is left of a text: they find what a search in the whole text
finds, with all offsets counted from where the rest begins.
-/

namespace Mustache

namespace Bytes

theorem slice_add (text : Bytes) (count start stop : Nat)
    : slice text (count + start) (count + stop) = slice (text.drop count) start stop := by
  unfold slice
  rw [List.drop_drop, Nat.add_sub_add_left]

theorem find?.go_add (needle rest : Bytes) (count offset : Nat)
    : find?.go needle rest (count + offset) = (find?.go needle rest offset).map (count + ·) := by
  induction rest generalizing offset with
  | nil =>
    unfold find?.go
    split <;> rfl
  | cons b rest ih =>
    unfold find?.go
    split
    . rfl
    . rw [Nat.add_assoc, ih]

theorem find?_add {text : Bytes} {count : Nat} (needle : Bytes) (pos : Nat) (h : count ≤ text.length)
    : find? text needle (count + pos) = (find? (text.drop count) needle pos).map (count + ·) := by
  unfold find?
  rw [List.drop_drop, List.length_drop, find?.go_add]
  split
  . rw [if_pos (by omega)]
  . rw [if_neg (by omega)]
    rfl

end Bytes

namespace Span

/-- The range, counted from `count` bytes before. -/
def shift (count : Nat) (span : Span) : Span :=
  ⟨count + span.start, count + span.stop⟩

end Span

namespace Tag

/-- The tag, with offsets that count from `count` bytes before. -/
def shift (count : Nat) (tag : Tag) : Tag :=
  { tag with start := count + tag.start, stop := count + tag.stop }

@[simp]
theorem shift_sigil (count : Nat) (tag : Tag) : (tag.shift count).sigil = tag.sigil := by
  rfl

@[simp]
theorem shift_body (count : Nat) (tag : Tag) : (tag.shift count).body = tag.body := by
  rfl

theorem find?_add {text : Bytes} {count : Nat} (marks : Marks) (pos : Nat) (h : count ≤ text.length)
    : find? text marks (count + pos) = (find? (text.drop count) marks pos).map (shift count) := by
  unfold find?
  rw [Bytes.find?_add _ _ h]
  cases Bytes.find? (text.drop count) marks.opening pos with
  | none => rfl
  | some start =>
    dsimp
    rw [List.getElem?_drop, ← Nat.add_assoc]
    cases text[count + start + marks.opening.length]? with
    | none => rfl
    | some sigil =>
      dsimp
      rw [Nat.add_assoc, Bytes.find?_add _ _ h]
      cases Bytes.find? (text.drop count) (endMark marks sigil) (start + marks.opening.length) with
      | none => rfl
      | some stop =>
        dsimp
        rw [Bytes.slice_add, Nat.add_assoc]
        rfl

theorem findClosing?_add {text : Bytes} {count : Nat} (marks : Marks) (name : Bytes) (pos : Nat)
    (h : count ≤ text.length)
    : findClosing? text marks name (count + pos)
        =
      (findClosing? (text.drop count) marks name pos).map (Span.shift count) := by
  unfold findClosing?
  rw [Bytes.find?_add _ _ h]
  cases Bytes.find? (text.drop count) (closing marks name) pos with
  | none => rfl
  | some start =>
    dsimp [Span.shift]
    rw [Nat.add_assoc]

theorem find?_add_of_avoids {text : Bytes} {marks : Marks} {pos count : Nat}
    (h : Bytes.Avoids marks.opening (text.drop pos) count)
    : find? text marks (pos + count) = find? text marks pos := by
  unfold find?
  rw [Bytes.find?_add_of_avoids h]

end Tag

end Mustache
