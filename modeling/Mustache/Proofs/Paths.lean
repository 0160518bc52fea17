import Mustache.Workspace

/-!
This module contains the text of paths. It is read back as the path that it is the text of, and apart from
slashes and dots it holds what was written and nothing else.
-/

namespace Mustache

theorem pieces_eq_splitOn [BEq α] (sep : α) (l : List α) : pieces sep l = l.splitOn sep := by
  induction l with
  | nil => rfl
  | cons a rest ih =>
    unfold pieces
    rw [List.splitOn_cons_eq_if_modifyHead, ih]
    cases hrest : rest.splitOn sep with
    | nil => exact absurd hrest (List.splitOn_ne_nil sep rest)
    | cons piece others => rfl

theorem not_mem_of_mem_pieces [BEq α] [LawfulBEq α] {sep : α} {l piece : List α} (h : piece ∈ pieces sep l)
    : sep ∉ piece := by
  induction l generalizing piece with
  | nil =>
    unfold pieces at h
    simp [List.mem_singleton.mp h]
  | cons a rest ih =>
    unfold pieces at h
    split at h
    . rcases List.mem_cons.mp h with rfl | h
      . exact List.not_mem_nil
      . exact ih h
    . next ha =>
      have hne : sep ≠ a := by
        rintro rfl
        simp at ha
      cases hrest : pieces sep rest with
      | nil =>
        rw [hrest] at h
        simpa [List.mem_singleton.mp h] using hne
      | cons first others =>
        rw [hrest] at ih h
        rcases List.mem_cons.mp h with rfl | h
        . simp [hne, ih (List.mem_cons_self ..)]
        . exact ih (List.mem_cons_of_mem _ h)

theorem mem_intercalate {l sep : List α} {ls : List (List α)} {a : α} (hl : l ∈ ls) (ha : a ∈ l)
    : a ∈ sep.intercalate ls := by
  induction ls with
  | nil => contradiction
  | cons first rest ih =>
    by_cases hrest : rest = []
    . subst hrest
      rw [List.mem_singleton] at hl
      subst hl
      simpa using ha
    . rw [List.intercalate_cons_of_ne_nil hrest]
      rcases List.mem_cons.mp hl with rfl | hl
      . simp [ha]
      . simp [ih hl]

theorem mem_of_mem_intercalate {sep : List α} {ls : List (List α)} {a : α} (ha : a ∈ sep.intercalate ls)
    : a ∈ sep ∨ ∃ l ∈ ls, a ∈ l := by
  induction ls with
  | nil => contradiction
  | cons first rest ih =>
    by_cases hrest : rest = []
    . subst hrest
      rw [List.intercalate_singleton] at ha
      exact .inr ⟨first, by simp, ha⟩
    . rw [List.intercalate_cons_of_ne_nil hrest, List.mem_append, List.mem_append] at ha
      rcases ha with (ha | ha) | ha
      . exact .inr ⟨first, by simp, ha⟩
      . exact .inl ha
      . rcases ih ha with ha | ⟨l, hl, ha⟩
        . exact .inl ha
        . exact .inr ⟨l, List.mem_cons_of_mem _ hl, ha⟩

theorem mem_of_mem_pieces [BEq α] [LawfulBEq α] {sep a : α} {l piece : List α}
    (hpiece : piece ∈ pieces sep l) (ha : a ∈ piece)
    : a ∈ l := by
  have hsplit : [sep].intercalate (l.splitOn sep) = l := List.intercalate_splitOn sep
  rw [pieces_eq_splitOn] at hpiece
  rw [← hsplit]
  exact mem_intercalate hpiece ha

theorem exists_mem_pieces [BEq α] [LawfulBEq α] {sep a : α} {l : List α} (ha : a ∈ l) (hne : a ≠ sep)
    : ∃ piece ∈ pieces sep l, a ∈ piece := by
  have hsplit : [sep].intercalate (l.splitOn sep) = l := List.intercalate_splitOn sep
  rw [pieces_eq_splitOn]
  rw [← hsplit] at ha
  rcases mem_of_mem_intercalate ha with hsep | hpiece
  . exact absurd (List.mem_singleton.mp hsep) hne
  . exact hpiece

theorem Utf8.length_le_encode (s : String) : s.toList.length ≤ (Utf8.encode s).length := by
  unfold Utf8.encode
  generalize s.toList = chars
  induction chars with
  | nil => simp
  | cons c rest ih =>
    have := Char.utf8Size_pos c
    simp only [List.flatMap_cons, List.length_append, List.length_cons, String.length_utf8EncodeChar]
    omega

namespace Path

/-- A component that is kept: it names something, or it is two dots. -/
structure IsPart (part : String) : Prop where
  ne_empty : part ≠ ""
  ne_dot : part ≠ "."
  no_slash : '/' ∉ part.toList

def IsNormal (path : Path) : Prop :=
  ∀ part ∈ path.parts, IsPart part

variable {path : Path} {parts : List String}

theorem isNormal_ofText (s : String) : (ofText s).IsNormal := by
  intro part hpart
  have hkept := List.mem_filter.mp hpart
  rcases List.mem_map.mp hkept.1 with ⟨piece, hpiece, rfl⟩
  simp only [ne_eq, decide_eq_true_eq] at hkept
  refine ⟨hkept.2.1, hkept.2.2, ?_⟩
  rw [String.toList_ofList]
  exact not_mem_of_mem_pieces hpiece

theorem isPart_replicate {n : Nat} {c : Char} (hn : 1 < n) (hc : c ≠ '/')
    : IsPart (String.ofList (List.replicate n c)) := by
  have hlength : (String.ofList (List.replicate n c)).toList.length = n := by simp
  constructor
  . intro hempty
    rw [hempty] at hlength
    have : "".toList.length = 0 := by decide
    omega
  . intro hdot
    rw [hdot] at hlength
    have : ".".toList.length = 1 := by decide
    omega
  . rw [String.toList_ofList]
    intro hslash
    exact hc (List.eq_of_mem_replicate hslash).symm

theorem rawParts_slash (s : String) : rawParts ("/" ++ s) = "" :: rawParts s := by
  unfold rawParts
  rw [String.toList_append]
  rfl

theorem rawParts_intercalate (h : ∀ part ∈ parts, IsPart part) (hne : parts ≠ [])
    : rawParts (String.intercalate "/" parts) = parts := by
  have hslash : "/".toList = ['/'] := by decide
  unfold rawParts
  rw [pieces_eq_splitOn, String.toList_intercalate, hslash, List.splitOn_intercalate]
  . simp
  . simp only [List.mem_map, forall_exists_index, and_imp, forall_apply_eq_imp_iff₂]
    intro part hpart
    exact (h part hpart).no_slash
  . simpa using hne

theorem takeWhile_intercalate (h : ∀ part ∈ parts, IsPart part)
    : (String.intercalate "/" parts).toList.takeWhile (· == '/') = [] := by
  cases parts with
  | nil => rfl
  | cons part rest =>
    have hpart := h part (by simp)
    cases hlist : part.toList with
    | nil => exact absurd (String.toList_eq_nil_iff.mp hlist) hpart.ne_empty
    | cons c cs =>
      have hc : (c == '/') = false := by
        have := hpart.no_slash
        rw [hlist] at this
        simp only [List.mem_cons, not_or] at this
        simp [Ne.symm this.1]
      rw [String.toList_intercalate]
      cases rest <;> simp [List.intercalate, hlist, hc]

theorem anchorOf_text (h : path.IsNormal) : anchorOf path.text = path.anchor := by
  have hjoined := takeWhile_intercalate h
  have hslash : "/".toList = ['/'] := by decide
  have hslashes : "//".toList = ['/', '/'] := by decide
  unfold anchorOf text
  cases path.anchor with
  | relative =>
    dsimp only
    by_cases hparts : path.parts = []
    . rw [if_pos hparts]
      rfl
    . rw [if_neg hparts, hjoined]
      rfl
  | root =>
    dsimp only
    rw [String.toList_append, hslash, List.cons_append, List.takeWhile_cons_of_pos (by rfl)]
    simp only [List.nil_append, hjoined, List.length_cons, List.length_nil]
  | doubleRoot =>
    dsimp only
    rw [String.toList_append, hslashes, List.cons_append, List.takeWhile_cons_of_pos (by rfl),
      List.cons_append, List.takeWhile_cons_of_pos (by rfl)]
    simp only [List.nil_append, hjoined, List.length_cons, List.length_nil]

/-- Of the components that are written only those at the front can be others than the parts. -/
theorem rawParts_text (h : path.IsNormal)
    : ∃ front, (∀ part ∈ front, part = "" ∨ part = ".") ∧ rawParts path.text = front ++ path.parts := by
  have hjoined : ∃ front, (∀ part ∈ front, part = "" ∨ part = ".")
      ∧ rawParts (String.intercalate "/" path.parts) = front ++ path.parts := by
    by_cases hparts : path.parts = []
    . rw [hparts]
      exact ⟨[""], by simp, by decide⟩
    . exact ⟨[], by simp, rawParts_intercalate h hparts⟩
  rcases hjoined with ⟨front, hfront, hraw⟩
  unfold text
  cases path.anchor with
  | relative =>
    dsimp only
    split
    . next hparts => exact ⟨["."], by simp, by rw [hparts]; decide⟩
    . exact ⟨front, hfront, hraw⟩
  | root =>
    refine ⟨"" :: front, by simpa using hfront, ?_⟩
    dsimp only
    rw [rawParts_slash, hraw, List.cons_append]
  | doubleRoot =>
    have hslashes : "//" = "/" ++ "/" := by decide
    refine ⟨"" :: "" :: front, by simpa using hfront, ?_⟩
    dsimp only
    rw [hslashes, String.append_assoc, rawParts_slash, rawParts_slash, hraw, List.cons_append,
      List.cons_append]

theorem ofText_text (h : path.IsNormal) : ofText path.text = path := by
  rcases rawParts_text h with ⟨front, hfront, hraw⟩
  unfold ofText
  rw [anchorOf_text h, hraw, List.filter_append]
  have hnone : front.filter (fun part => part ≠ "" ∧ part ≠ ".") = [] := by
    rw [List.filter_eq_nil_iff]
    intro part hpart
    rcases hfront part hpart with rfl | rfl <;> decide
  have hall : path.parts.filter (fun part => part ≠ "" ∧ part ≠ ".") = path.parts := by
    rw [List.filter_eq_self]
    intro part hpart
    simp [(h part hpart).ne_empty, (h part hpart).ne_dot]
  rw [hnone, hall, List.nil_append]

theorem text_of_part (part : String) : text ⟨.relative, [part]⟩ = part := by
  unfold text
  simp

theorem ofText_of_isPart {part : String} (h : IsPart part) : ofText part = ⟨.relative, [part]⟩ := by
  have hnormal : IsNormal ⟨.relative, [part]⟩ := by
    simpa [IsNormal] using h
  have := ofText_text hnormal
  rwa [text_of_part] at this

theorem text_ne_empty (h : path.IsNormal) : path.text ≠ "" := by
  intro hempty
  unfold text at hempty
  cases hp : path.anchor with
  | relative =>
    rw [hp] at hempty
    dsimp only at hempty
    split at hempty
    . contradiction
    . next hparts =>
      have hraw := rawParts_intercalate h hparts
      rw [hempty] at hraw
      have hmem : "" ∈ path.parts := by
        rw [← hraw]
        decide
      exact (h "" hmem).ne_empty rfl
  | root => simp [hp] at hempty
  | doubleRoot => simp [hp] at hempty

theorem mem_toList_text {part : String} {c : Char} (hpart : part ∈ path.parts) (hc : c ∈ part.toList)
    : c ∈ path.text.toList := by
  have hjoined : c ∈ (String.intercalate "/" path.parts).toList := by
    rw [String.toList_intercalate]
    exact mem_intercalate (List.mem_map_of_mem hpart) hc
  unfold text
  cases path.anchor with
  | relative =>
    dsimp only
    split
    . next hparts =>
      rw [hparts] at hpart
      contradiction
    . exact hjoined
  | root => simp [-String.toList_intercalate, hjoined]
  | doubleRoot => simp [-String.toList_intercalate, hjoined]

theorem mem_of_mem_toList_text {c : Char} (hc : c ∈ path.text.toList)
    : c = '.' ∨ c = '/' ∨ ∃ part ∈ path.parts, c ∈ part.toList := by
  have hjoined : c ∈ (String.intercalate "/" path.parts).toList →
      c = '.' ∨ c = '/' ∨ ∃ part ∈ path.parts, c ∈ part.toList := by
    intro hc
    rw [String.toList_intercalate] at hc
    rcases mem_of_mem_intercalate hc with hc | ⟨l, hl, hc⟩
    . exact .inr (.inl (by simpa using hc))
    . rcases List.mem_map.mp hl with ⟨part, hpart, rfl⟩
      exact .inr (.inr ⟨part, hpart, hc⟩)
  unfold text at hc
  cases hanchor : path.anchor with
  | relative =>
    rw [hanchor] at hc
    dsimp only at hc
    split at hc
    . exact .inl (by simpa using hc)
    . exact hjoined hc
  | root =>
    simp only [hanchor, String.toList_append, List.mem_append] at hc
    rcases hc with hc | hc
    . exact .inr (.inl (by simpa using hc))
    . exact hjoined hc
  | doubleRoot =>
    simp only [hanchor, String.toList_append, List.mem_append] at hc
    rcases hc with hc | hc
    . exact .inr (.inl (by simpa using hc))
    . exact hjoined hc

/-- A null character stays in a path, since it makes a component that is kept. -/
theorem null_mem_text_ofText {s : String} (h : '\x00' ∈ s.toList) : '\x00' ∈ (ofText s).text.toList := by
  rcases exists_mem_pieces h (by decide : '\x00' ≠ '/') with ⟨piece, hpiece, hc⟩
  rw [← @String.toList_ofList piece] at hc
  refine mem_toList_text (List.mem_filter.mpr ⟨List.mem_map_of_mem hpiece, ?_⟩) hc
  simp only [ne_eq, decide_eq_true_eq]
  constructor
  . intro hempty
    rw [hempty] at hc
    contradiction
  . intro hdot
    rw [hdot] at hc
    contradiction

theorem null_mem_text_iff (s : String) : '\x00' ∈ (ofText s).text.toList ↔ '\x00' ∈ s.toList := by
  constructor
  . intro hnull
    rcases mem_of_mem_toList_text hnull with hdot | hslash | ⟨part, hpart, hc⟩
    . contradiction
    . contradiction
    . rcases List.mem_map.mp (List.mem_filter.mp hpart).1 with ⟨piece, hpiece, rfl⟩
      rw [String.toList_ofList] at hc
      exact mem_of_mem_pieces hpiece hc
  . exact null_mem_text_ofText

theorem isNormal_parent (h : path.IsNormal) : path.parent.IsNormal := by
  intro part hpart
  exact h part (List.dropLast_subset _ hpart)

theorem parent_parts_append_name (h : path.parts ≠ [])
    : path.parts = path.parent.parts ++ [path.name] := by
  unfold parent name
  rw [List.getLastD_eq_getLast?, List.getLast?_eq_some_getLast h]
  exact (List.dropLast_concat_getLast h).symm

theorem name_of_no_parts (h : path.parts = []) : path.name = "" := by
  unfold name
  rw [h]
  rfl

theorem isPart_name (hnormal : path.IsNormal) (h : path.parts ≠ []) : IsPart path.name := by
  apply hnormal
  rw [parent_parts_append_name h]
  simp

end Path

end Mustache
