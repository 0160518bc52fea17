import Mathlib.Data.List.Basic
import Mathlib.Data.List.TakeWhile
import Mustache.Delimiters
import Mustache.Proofs.Cuts

/-!
This module contains what stands in the body of a command: between the equals signs the two marks with
a space between them, and blanks around them.
-/

namespace Mustache

namespace Bytes

theorem trim_split (text : Bytes)
    : ∃ left right, (∀ b ∈ left, isBlank b = true) ∧ (∀ b ∈ right, isBlank b = true)
        ∧ text = left ++ trim text ++ right := by
  have hleft := @List.takeWhile_append_dropWhile _ isBlank text
  have hright := @List.takeWhile_append_dropWhile _ isBlank (text.dropWhile isBlank).reverse
  refine ⟨text.takeWhile isBlank, ((text.dropWhile isBlank).reverse.takeWhile isBlank).reverse, ?_, ?_, ?_⟩
  . intro b hb
    exact List.mem_takeWhile_imp hb
  . intro b hb
    rw [List.mem_reverse] at hb
    exact List.mem_takeWhile_imp hb
  . unfold trim
    rw [List.append_assoc, ← List.reverse_append, hright, List.reverse_reverse, hleft]

theorem trim_prefix (text : Bytes) : trim text <+: text.dropWhile isBlank := by
  unfold trim
  have := List.dropWhile_suffix (l := (text.dropWhile isBlank).reverse) isBlank
  rw [← List.reverse_prefix, List.reverse_reverse] at this
  exact this

theorem isBlank_head?_trim {text : Bytes} : ∀ b ∈ (trim text).head?, isBlank b = false := by
  intro b hb
  rcases trim_prefix text with ⟨after, hafter⟩
  have := List.head?_dropWhile_not isBlank text
  rw [← hafter, List.head?_append, hb] at this
  exact this

theorem isBlank_getLast?_trim {text : Bytes} : ∀ b ∈ (trim text).getLast?, isBlank b = false := by
  intro b hb
  unfold trim at hb
  have := List.head?_dropWhile_not isBlank (text.dropWhile isBlank).reverse
  rw [← List.getLast?_reverse, hb] at this
  exact this

theorem dropWhile_isBlank_of_head? {text : Bytes} (h : ∀ b ∈ text.head?, isBlank b = false)
    : text.dropWhile isBlank = text := by
  cases text with
  | nil => rfl
  | cons b rest =>
    apply List.dropWhile_cons_of_neg
    simp [h b rfl]

theorem trim_append {left text right : Bytes} (hleft : ∀ b ∈ left, isBlank b = true)
    (hright : ∀ b ∈ right, isBlank b = true) (hhead : ∀ b ∈ text.head?, isBlank b = false)
    (hlast : ∀ b ∈ text.getLast?, isBlank b = false)
    : trim (left ++ text ++ right) = text := by
  unfold trim
  rw [List.append_assoc, List.dropWhile_append_of_pos hleft]
  by_cases hempty : text = []
  . simp [hempty, List.dropWhile_eq_nil_iff.mpr hright]
  . have hfront : (text ++ right).dropWhile isBlank = text ++ right := by
      apply dropWhile_isBlank_of_head?
      rwa [List.head?_append_of_ne_nil text hempty]
    have hback : (text ++ right).reverse.dropWhile isBlank = text.reverse := by
      have hright' : ∀ b ∈ right.reverse, isBlank b = true := by simpa using hright
      rw [List.reverse_append, List.dropWhile_append_of_pos hright']
      apply dropWhile_isBlank_of_head?
      rwa [List.head?_reverse]
    rw [hfront, hback, List.reverse_reverse]

end Bytes

namespace Delimiters

def spaced (delims : Delimiters) : Bytes :=
  delims.opening ++ Bytes.space :: delims.closing

theorem head?_spaced (delims : Delimiters) : delims.spaced.head? = delims.opening.head? := by
  apply List.head?_append_of_ne_nil
  exact delims.opening_ne_nil

theorem getLast?_spaced (delims : Delimiters) : delims.spaced.getLast? = delims.closing.getLast? := by
  unfold spaced
  rw [List.append_cons]
  apply List.getLast?_append_of_ne_nil
  exact delims.closing_ne_nil

/--
A command as it is written: the delimiters that it sets, and the blanks before and after them. The delimiters
hold no space, and all blanks next to them are counted among those around them.
-/
structure Change extends Delimiters where
  left : Bytes
  right : Bytes
  isBlank_left : ∀ b ∈ left, Bytes.isBlank b = true
  isBlank_right : ∀ b ∈ right, Bytes.isBlank b = true
  space_not_mem_opening : Bytes.space ∉ opening
  space_not_mem_closing : Bytes.space ∉ closing
  head?_opening : opening.head? ≠ some Bytes.tab
  getLast?_closing : closing.getLast? ≠ some Bytes.tab

namespace Change

def inside (change : Change) : Bytes :=
  change.left ++ change.spaced ++ change.right

def body (change : Change) : Bytes :=
  equals :: (change.inside ++ [equals])

theorem isBlank_head?_spaced (change : Change) : ∀ b ∈ change.spaced.head?, Bytes.isBlank b = false := by
  intro b hb
  rw [head?_spaced] at hb
  have htab := change.head?_opening
  have hspace : b ≠ Bytes.space := by
    rintro rfl
    exact change.space_not_mem_opening (List.mem_of_mem_head? hb)
  rw [hb] at htab
  simpa [Bytes.isBlank, hspace] using htab

theorem isBlank_getLast?_spaced (change : Change)
    : ∀ b ∈ change.spaced.getLast?, Bytes.isBlank b = false := by
  intro b hb
  rw [getLast?_spaced] at hb
  have htab := change.getLast?_closing
  have hspace : b ≠ Bytes.space := by
    rintro rfl
    exact change.space_not_mem_closing (List.mem_of_mem_getLast? hb)
  rw [hb] at htab
  simpa [Bytes.isBlank, hspace] using htab

theorem trim_inside (change : Change) : Bytes.trim change.inside = change.spaced := by
  apply Bytes.trim_append
  . exact change.isBlank_left
  . exact change.isBlank_right
  . exact change.isBlank_head?_spaced
  . exact change.isBlank_getLast?_spaced

theorem cutAt?_spaced (change : Change)
    : cutAt? Bytes.space change.spaced = some (change.opening, change.closing) := by
  apply cutAt?_append
  exact change.space_not_mem_opening

end Change

/-- A command that is too short has no room for two marks, so the check of its length rejects nothing more. -/
theorem ofCommand?_eq_some_iff_cut (body : Bytes) (new : Delimiters)
    : ofCommand? body = some new
        ↔
      ∃ sigil inside, body = sigil :: (inside ++ [equals])
        ∧ cutAt? Bytes.space (Bytes.trim inside) = some (new.opening, new.closing)
        ∧ Bytes.space ∉ new.closing := by
  unfold ofCommand?
  constructor
  . intro h
    split at h
    . contradiction
    . next hshape =>
      rw [not_or, Nat.not_le, not_not] at hshape
      cases body with
      | nil => simp at hshape
      | cons sigil rest =>
        have hlast : rest.getLast? = some equals := by
          cases rest with
          | nil => simp at hshape
          | cons => simpa using hshape.2
        rw [List.getLast?_eq_some_iff] at hlast
        rcases hlast with ⟨inside, rfl⟩
        rw [List.drop_succ_cons, List.drop_zero, List.dropLast_concat] at h
        refine ⟨sigil, inside, rfl, ?_⟩
        split at h
        . contradiction
        . next opening closing hcut =>
          split at h
          . next hmarks =>
            rw [Option.some.injEq] at h
            subst h
            exact ⟨hcut, hmarks.2.2⟩
          . contradiction
  . rintro ⟨sigil, inside, rfl, hcut, hspace⟩
    have hlength : 2 < inside.length := by
      rcases Bytes.trim_split inside with ⟨left, right, _, _, hinside⟩
      have hopening := new.length_opening_pos
      have hclosing := new.length_closing_pos
      have htrim := length_of_cutAt? hcut
      have := congrArg List.length hinside
      simp only [List.length_append] at this
      omega
    have hshape : ¬ ((sigil :: (inside ++ [equals])).length ≤ 4
        ∨ (sigil :: (inside ++ [equals])).getLast? ≠ some equals) := by
      rw [← List.cons_append, List.getLast?_concat, List.length_append, List.length_cons]
      simp
      omega
    rw [if_neg hshape]
    simp [hcut, hspace, new.opening_ne_nil, new.closing_ne_nil]

theorem ofCommand?_eq_some_iff (body : Bytes) (new : Delimiters)
    : ofCommand? body = some new
        ↔
      ∃ sigil, ∃ change : Change, change.toDelimiters = new ∧ body = sigil :: (change.inside ++ [equals]) := by
  rw [ofCommand?_eq_some_iff_cut]
  constructor
  . rintro ⟨sigil, inside, rfl, hcut, hspace⟩
    rw [cutAt?_eq_some_iff] at hcut
    rcases Bytes.trim_split inside with ⟨left, right, hleft, hright, hinside⟩
    have htrim : Bytes.trim inside = new.spaced := hcut.1
    have hhead := @Bytes.isBlank_head?_trim inside
    have hlast := @Bytes.isBlank_getLast?_trim inside
    rw [htrim] at hinside hhead hlast
    rw [head?_spaced] at hhead
    rw [getLast?_spaced] at hlast
    let change : Change := {
      toDelimiters := new
      left := left
      right := right
      isBlank_left := hleft
      isBlank_right := hright
      space_not_mem_opening := hcut.2
      space_not_mem_closing := hspace
      head?_opening := fun htab => absurd (hhead _ htab) (by decide)
      getLast?_closing := fun htab => absurd (hlast _ htab) (by decide)
    }
    have hchange : change.inside = inside := hinside.symm
    exact ⟨sigil, change, rfl, by rw [hchange]⟩
  . rintro ⟨sigil, change, rfl, rfl⟩
    refine ⟨sigil, change.inside, rfl, ?_, change.space_not_mem_closing⟩
    rw [change.trim_inside, change.cutAt?_spaced]

theorem ofCommand?_eq_some {body : Bytes} {new : Delimiters} (h : ofCommand? body = some new)
    : ∃ sigil left right, (∀ b ∈ left, Bytes.isBlank b = true) ∧ (∀ b ∈ right, Bytes.isBlank b = true)
        ∧ (∀ b ∈ new.opening.head?, Bytes.isBlank b = false)
        ∧ body = sigil :: (left ++ (new.opening ++ Bytes.space :: new.closing) ++ right ++ [equals]) := by
  rw [ofCommand?_eq_some_iff] at h
  rcases h with ⟨sigil, change, rfl, rfl⟩
  refine ⟨sigil, change.left, change.right, change.isBlank_left, change.isBlank_right, ?_, rfl⟩
  intro b hb
  apply change.isBlank_head?_spaced
  rwa [head?_spaced]

end Delimiters

end Mustache
