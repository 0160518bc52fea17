import Mustache.Proofs.Files
import Mustache.Proofs.Paths

/-!
This module contains where paths lead. The text of a path leads through its parts, one after the other;
so a name in a directory leads to a place, unless it is too long, and there a file can be written.
-/

namespace Mustache

/-- No file can be looked for under such a path. A null character is noticed before. -/
def Path.IsTooLong (path : Path) : Prop :=
  '\x00' ∉ path.text.toList
    ∧ (Workspace.maxPathLength < (Utf8.encode path.text).length
      ∨ Workspace.maxNameLength < (Utf8.encode path.name).length)

namespace Workspace

variable {w : Workspace} {place : Location} {path : Path}

theorem node?_home (w : Workspace) : w.node? w.home = some .directory := by
  simp [node?]

theorem node?_root (w : Workspace) : w.node? [] = some .directory := by
  simp [node?]

def startOf (w : Workspace) (path : Path) : Location :=
  if path.anchor = .relative then w.home else []

theorem node?_startOf (w : Workspace) (path : Path) : w.node? (w.startOf path) = some .directory := by
  unfold startOf
  split
  . exact w.node?_home
  . exact w.node?_root

theorem follow_append (w : Workspace) (place : Location) (front back : List String)
    : w.follow place (front ++ back) = (w.follow place front).bind fun place => w.follow place back := by
  induction front generalizing place with
  | nil => rfl
  | cons part front ih =>
    rw [List.cons_append, follow, follow]
    split
    . rfl
    . rfl
    . split
      . exact ih place
      . split
        . exact ih place.dropLast
        . split
          . rfl
          . exact ih (place ++ [part])

theorem follow_idle {front : List String} (hfront : ∀ part ∈ front, part = "" ∨ part = ".")
    (hplace : w.node? place = some .directory)
    : w.follow place front = .ok place := by
  induction front with
  | nil => rfl
  | cons part front ih =>
    unfold follow
    rw [hplace]
    dsimp only
    rw [if_pos (hfront part (by simp))]
    exact ih fun part hpart => hfront part (List.mem_cons_of_mem _ hpart)

theorem follow_ne_nullCharacter (w : Workspace) (place : Location) (parts : List String)
    : w.follow place parts ≠ .error .nullCharacter := by
  induction parts generalizing place with
  | nil => simp [follow]
  | cons part rest ih =>
    unfold follow
    split
    . simp
    . simp
    . split
      . exact ih place
      . split
        . exact ih place.dropLast
        . split
          . simp
          . exact ih (place ++ [part])

theorem stat_eq_nullCharacter_iff (w : Workspace) (s : String)
    : w.stat s = .error .nullCharacter ↔ '\x00' ∈ s.toList := by
  unfold stat locate
  by_cases hnull : '\x00' ∈ s.toList
  . simp [hnull]
  . simp only [hnull, if_false, iff_false]
    intro hstat
    split at hstat
    . next fault heq =>
      injection hstat with hstat
      subst hstat
      split at heq
      . injection heq with heq
        contradiction
      . split at heq
        . injection heq with heq
          contradiction
        . exact follow_ne_nullCharacter _ _ _ heq
    . split at hstat
      . injection hstat with hstat
        contradiction
      . contradiction

theorem locate_text (w : Workspace) (h : path.IsNormal)
    : w.locate path.text =
        if '\x00' ∈ path.text.toList then .error .nullCharacter
        else if maxPathLength < (Utf8.encode path.text).length then .error .nameTooLong
        else w.follow (w.startOf path) path.parts := by
  rcases Path.rawParts_text h with ⟨front, hfront, hraw⟩
  unfold locate
  rw [if_neg (Path.text_ne_empty h), Path.anchorOf_text h, hraw, follow_append]
  have hidle := follow_idle hfront (w.node?_startOf path)
  unfold startOf at hidle ⊢
  rw [hidle]
  rfl

theorem no_null_of_isDirectory (h : w.isDirectory path = true) : '\x00' ∉ path.text.toList := by
  intro hnull
  unfold isDirectory stat locate at h
  rw [if_pos hnull] at h
  contradiction

theorem isDirectory_eq_true (h : w.isDirectory path = true)
    : ∃ place, w.locate path.text = .ok place ∧ w.node? place = some .directory := by
  unfold isDirectory stat at h
  cases hplace : w.locate path.text with
  | error fault => simp [hplace] at h
  | ok place =>
    rw [hplace] at h
    dsimp only at h
    cases hnode : w.node? place with
    | none => simp [hnode] at h
    | some node =>
      cases node with
      | file content => simp [hnode] at h
      | directory => exact ⟨place, rfl, hnode⟩

theorem isDirectory_of_locate (hplace : w.locate path.text = .ok place)
    (hnode : w.node? place = some .directory)
    : w.isDirectory path = true := by
  unfold isDirectory stat
  rw [hplace]
  dsimp only
  rw [hnode]

theorem isDirectory_of_makeDirectory {w' : Workspace} (h : w.makeDirectory path = .ok w')
    : w'.isDirectory path = true := by
  unfold makeDirectory at h
  split at h
  . contradiction
  . next place hplace =>
    split at h
    . contradiction
    . next hnone =>
      injection h with h
      subst h
      have hself := @node?_put_self w place .directory (by simp [hnone])
      have hhome : (w.put place .directory).home = w.home := rfl
      refine isDirectory_of_locate (locate_eq_ok hhome ?_ hplace) hself
      intro other hother
      have hne : other ≠ place := by
        rintro rfl
        simp [hnone] at hother
      rw [node?_put_of_ne _ hne, hother]

theorem isDirectory_of_ensureDirectory {w' : Workspace} (h : w.ensureDirectory path = .ok w')
    : w'.isDirectory path = true := by
  unfold ensureDirectory at h
  split at h
  . next hmade =>
    injection h with h
    subst h
    exact isDirectory_of_makeDirectory hmade
  . split at h
    . next hthere =>
      injection h with h
      subst h
      exact hthere.2
    . contradiction

theorem isDirectory_of_ensureDirectories (h : (w.ensureDirectories path).2 = none)
    : (w.ensureDirectories path).1.isDirectory path = true := by
  rw [ensureDirectories] at h ⊢
  cases hmade : w.ensureDirectory path with
  | ok w' => exact isDirectory_of_ensureDirectory hmade
  | error error =>
    rw [hmade] at h
    dsimp only at h ⊢
    split at h
    . next hparent =>
      rw [dif_pos hparent]
      rcases hparents : w.ensureDirectories path.parent with ⟨w', _ | error⟩
      . rw [hparents] at h
        dsimp only at h ⊢
        cases hlast : w'.ensureDirectory path with
        | ok w'' => exact isDirectory_of_ensureDirectory hlast
        | error error => simp [hlast] at h
      . rw [hparents] at h
        contradiction
    . contradiction

theorem follow_of_locate (hnormal : path.IsNormal) (h : w.locate path.text = .ok place)
    : w.follow (w.startOf path) path.parts = .ok place := by
  rw [w.locate_text hnormal] at h
  split at h
  . contradiction
  . split at h
    . contradiction
    . exact h

/-- In a directory that is there, only the name of a file can be too long. -/
theorem follow_part {part : String} (hpart : Path.IsPart part) (hplace : w.node? place = some .directory)
    : w.follow place [part] =
        if part = ".." then .ok place.dropLast
        else if maxNameLength < (Utf8.encode part).length then .error .nameTooLong
        else .ok (place ++ [part]) := by
  unfold follow
  rw [hplace]
  dsimp only
  rw [if_neg (not_or.mpr ⟨hpart.ne_empty, hpart.ne_dot⟩)]
  rfl

theorem follow_part_iff {part : String} (hpart : Path.IsPart part)
    (hplace : w.node? place = some .directory)
    : (∃ other, w.follow place [part] = .ok other) ↔ (Utf8.encode part).length ≤ maxNameLength := by
  rw [follow_part hpart hplace]
  split
  . next hup =>
    subst hup
    have hlength : (Utf8.encode "..").length ≤ maxNameLength := by decide
    simp [hlength]
  . split
    . next hlong => simp [Nat.not_le.mpr hlong]
    . next hlong => simp [Nat.not_lt.mp hlong]

theorem follow_parts (hnormal : path.IsNormal) (hparts : path.parts ≠ [])
    (hplace : w.locate path.parent.text = .ok place)
    : w.follow (w.startOf path) path.parts = w.follow place [path.name] := by
  rw [Path.parent_parts_append_name hparts, follow_append]
  change (w.follow (w.startOf path.parent) path.parent.parts).bind _ = _
  rw [follow_of_locate (Path.isNormal_parent hnormal) hplace]
  rfl

theorem locate_in_directory (hnormal : path.IsNormal) (hparts : path.parts ≠ []) (hup : path.name ≠ "..")
    (hplace : w.locate path.parent.text = .ok place) (hnode : w.node? place = some .directory)
    : ('\x00' ∈ path.text.toList → w.locate path.text = .error .nullCharacter)
        ∧ (path.IsTooLong → w.locate path.text = .error .nameTooLong)
        ∧ ('\x00' ∉ path.text.toList → ¬ path.IsTooLong →
          w.locate path.text = .ok (place ++ [path.name])) := by
  rw [w.locate_text hnormal, follow_parts hnormal hparts hplace,
    follow_part (Path.isPart_name hnormal hparts) hnode, if_neg hup]
  refine ⟨?_, ?_, ?_⟩
  . intro hnull
    rw [if_pos hnull]
  . rintro ⟨hnull, htext | hlong⟩
    . rw [if_neg hnull, if_pos htext]
    . rw [if_neg hnull, if_pos hlong]
      split <;> rfl
  . intro hnull hshort
    unfold Path.IsTooLong at hshort
    simp only [not_and, not_or] at hshort
    rw [if_neg hnull, if_neg (hshort hnull).1, if_neg (hshort hnull).2]

theorem name_length_of_locate (hnormal : path.IsNormal) (h : w.locate path.text = .ok place)
    : (Utf8.encode path.name).length ≤ maxNameLength := by
  by_cases hparts : path.parts = []
  . rw [Path.name_of_no_parts hparts]
    decide
  . have hname := Path.isPart_name hnormal hparts
    have hfollow := follow_of_locate hnormal h
    rw [Path.parent_parts_append_name hparts, follow_append] at hfollow
    cases hparent : w.follow (w.startOf path) path.parent.parts with
    | error fault =>
      rw [hparent] at hfollow
      contradiction
    | ok directory =>
      rw [hparent] at hfollow
      change w.follow directory [path.name] = .ok place at hfollow
      cases hnode : w.node? directory with
      | none => simp [follow, hnode] at hfollow
      | some node =>
        cases node with
        | file content => simp [follow, hnode] at hfollow
        | directory => exact (follow_part_iff hname hnode).mp ⟨place, hfollow⟩

theorem locate_of_parent (hnormal : path.IsNormal) (hparent : w.isDirectory path.parent = true)
    (hnull : '\x00' ∉ path.text.toList)
    : (∃ place, w.locate path.text = .ok place)
        ↔ (Utf8.encode path.name).length ≤ maxNameLength
          ∧ (Utf8.encode path.text).length ≤ maxPathLength := by
  rw [w.locate_text hnormal, if_neg hnull]
  by_cases hlength : maxPathLength < (Utf8.encode path.text).length
  . rw [if_pos hlength]
    simp [Nat.not_le.mpr hlength]
  . rw [if_neg hlength]
    by_cases hparts : path.parts = []
    . have hempty : (Utf8.encode "").length ≤ maxNameLength := by decide
      rw [hparts, Path.name_of_no_parts hparts]
      simp [follow, hempty, Nat.not_lt.mp hlength]
    . rcases isDirectory_eq_true hparent with ⟨place, hplace, hnode⟩
      rw [follow_parts hnormal hparts hplace, follow_part_iff (Path.isPart_name hnormal hparts) hnode]
      simp [Nat.not_lt.mp hlength]

/-- A file can be written at the path, in directories that are made where they are missing. -/
structure Takes (w : Workspace) (path : Path) : Prop where
  parents : (w.ensureDirectories path.parent).2 = none
  no_directory : (w.ensureDirectories path.parent).1.isDirectory path = false
  no_null : '\x00' ∉ path.text.toList
  name_length : (Utf8.encode path.name).length ≤ maxNameLength
  text_length : (Utf8.encode path.text).length ≤ maxPathLength

theorem takes_iff (hnormal : path.IsNormal)
    : w.Takes path
        ↔ (w.ensureDirectories path.parent).2 = none
          ∧ ∃ place, (w.ensureDirectories path.parent).1.locate path.text = .ok place
            ∧ (w.ensureDirectories path.parent).1.node? place ≠ some .directory := by
  constructor
  . intro h
    have hparent := isDirectory_of_ensureDirectories h.parents
    rcases (locate_of_parent hnormal hparent h.no_null).mpr ⟨h.name_length, h.text_length⟩
      with ⟨place, hplace⟩
    refine ⟨h.parents, place, hplace, ?_⟩
    intro hnode
    have hdirectory := isDirectory_of_locate hplace hnode
    rw [h.no_directory] at hdirectory
    contradiction
  . rintro ⟨hparents, place, hplace, hnode⟩
    have hparent := isDirectory_of_ensureDirectories hparents
    have hnull : '\x00' ∉ path.text.toList := by
      intro hnull
      rw [locate_text _ hnormal, if_pos hnull] at hplace
      contradiction
    have hlengths := (locate_of_parent hnormal hparent hnull).mp ⟨place, hplace⟩
    refine ⟨hparents, ?_, hnull, hlengths.1, hlengths.2⟩
    rw [Bool.eq_false_iff]
    intro hdirectory
    rcases isDirectory_eq_true hdirectory with ⟨place', hplace', hnode'⟩
    rw [hplace] at hplace'
    injection hplace' with hplace'
    subst hplace'
    exact hnode hnode'

end Workspace

end Mustache
