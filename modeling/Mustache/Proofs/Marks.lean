import Mustache.Proofs.Find

/-!
This module contains where a tag can occur in a text of tags with text between them. If no byte of the
marks stands inside of a tag or in the text between, a tag occurs only where it was written. This needs
that the two marks differ: what follows a closing mark and precedes an opening mark would be a tag too.
-/

namespace Mustache

namespace Bytes

/-- The first `count` offsets of `text` are no occurrences of `needle`. -/
def Avoids (needle text : Bytes) (count : Nat) : Prop :=
  ∀ i < count, ¬ needle <+: text.drop i

theorem avoids_zero (needle text : Bytes) : Avoids needle text 0 := by
  intro i hi
  omega

theorem Avoids.append {needle before after : Bytes} {count : Nat}
    (hbefore : Avoids needle (before ++ after) before.length) (hafter : Avoids needle after count)
    : Avoids needle (before ++ after) (before.length + count) := by
  intro i hi
  cases Nat.lt_or_ge i before.length with
  | inl hlt => exact hbefore i hlt
  | inr hge =>
    rw [List.drop_append, List.drop_eq_nil_of_le hge, List.nil_append]
    apply hafter
    omega

theorem avoids_of_not_mem {b : UInt8} {before : Bytes} (needle after : Bytes) (h : b ∉ before)
    : Avoids (b :: needle) (before ++ after) before.length := by
  intro i hi hoccurs
  rw [List.drop_append_of_le_length (Nat.le_of_lt hi), List.drop_eq_getElem_cons hi,
    List.cons_append, List.cons_prefix_cons] at hoccurs
  apply h
  rw [hoccurs.1]
  apply List.getElem_mem

theorem find?_eq_of_avoids {text needle before after : Bytes} {pos : Nat}
    (htext : text.drop pos = before ++ needle ++ after)
    (havoids : Avoids needle (before ++ needle ++ after) before.length) (hpos : pos ≤ text.length)
    : find? text needle pos = some (pos + before.length) := by
  have hlength := congrArg List.length htext
  simp only [List.length_drop, List.length_append] at hlength
  rw [find?_eq_some_iff]
  refine ⟨by omega, by omega, ?_, ?_⟩
  . rw [← List.drop_drop, htext, List.append_assoc, List.drop_left]
    apply List.prefix_append
  . intro i hi hlt
    have := havoids (i - pos) (by omega)
    rwa [← htext, List.drop_drop, Nat.add_sub_cancel' hi] at this

theorem find?_add_of_avoids {text needle : Bytes} {pos count : Nat}
    (havoids : Avoids needle (text.drop pos) count)
    : find? text needle (pos + count) = find? text needle pos := by
  apply Option.ext
  intro found
  rw [find?_eq_some_iff, find?_eq_some_iff]
  constructor
  . intro h
    refine ⟨by omega, h.2.1, h.2.2.1, ?_⟩
    intro i hi hlt
    cases Nat.lt_or_ge i (pos + count) with
    | inl hbefore =>
      have := havoids (i - pos) (by omega)
      rwa [List.drop_drop, Nat.add_sub_cancel' hi] at this
    | inr hafter => exact h.2.2.2 i hafter hlt
  . intro h
    have hfound : pos + count ≤ found := by
      apply Nat.le_of_not_lt
      intro hlt
      have := havoids (found - pos) (by omega)
      rw [List.drop_drop, Nat.add_sub_cancel' h.1] at this
      exact this h.2.2.1
    refine ⟨hfound, h.2.1, h.2.2.1, ?_⟩
    intro i hi hlt
    exact h.2.2.2 i (by omega) hlt

end Bytes

section Runs

variable {p : UInt8 → Prop} {run run' rest : Bytes}

theorem prefix_of_run (hrun : ∀ b ∈ run, p b) (hrest : ∀ b ∈ rest.head?, ¬ p b)
    (h : run <+: run' ++ rest)
    : run <+: run' := by
  induction run generalizing run' with
  | nil => apply List.nil_prefix
  | cons a run ih =>
    cases run' with
    | nil =>
      rcases h with ⟨after, rfl⟩
      exact absurd (hrun a (by simp)) (hrest a (by simp))
    | cons a' run' =>
      rw [List.cons_append, List.cons_prefix_cons] at h
      rw [List.cons_prefix_cons]
      refine ⟨h.1, ih ?_ h.2⟩
      intro b hb
      exact hrun b (List.mem_cons_of_mem _ hb)

theorem eq_of_prefix_of_runs {b : UInt8} {rest' : Bytes} (hrun : ∀ a ∈ run, p a)
    (hrun' : ∀ a ∈ run', p a) (hb : ¬ p b) (hrest : ∀ a ∈ rest'.head?, ¬ p a)
    (h : run ++ b :: rest <+: run' ++ rest')
    : run = run' ∧ b :: rest <+: rest' := by
  induction run generalizing run' with
  | nil =>
    cases run' with
    | nil => exact ⟨rfl, h⟩
    | cons a' run' =>
      rw [List.nil_append, List.cons_append, List.cons_prefix_cons] at h
      rw [h.1] at hb
      exact absurd (hrun' a' (by simp)) hb
  | cons a run ih =>
    cases run' with
    | nil =>
      rcases h with ⟨after, rfl⟩
      exact absurd (hrun a (by simp)) (hrest a (by simp))
    | cons a' run' =>
      rw [List.cons_append, List.cons_append, List.cons_prefix_cons] at h
      rw [List.forall_mem_cons] at hrun hrun'
      rcases ih hrun.2 hrun'.2 h.2 with ⟨heq, hoccurs⟩
      exact ⟨by rw [h.1, heq], hoccurs⟩

end Runs

namespace Marks

/-- No byte is one of the marks. -/
def Clear (marks : Marks) (bytes : Bytes) : Prop :=
  ∀ b ∈ bytes, b ∉ marks.opening ∧ b ∉ marks.closing

instance (marks : Marks) (bytes : Bytes) : Decidable (marks.Clear bytes) :=
  List.decidableBAll _ bytes

/-- A tag with the given body. -/
def wrap (marks : Marks) (body : Bytes) : Bytes :=
  marks.opening ++ body ++ marks.closing

def TagAhead (marks : Marks) (text : Bytes) : Prop :=
  ∃ before b body after, text = before ++ marks.wrap (b :: body) ++ after
    ∧ marks.Clear before ∧ marks.Clear (b :: body)

theorem tagAhead_wrap {marks : Marks} {b : UInt8} {body : Bytes} (after : Bytes)
    (hbody : marks.Clear (b :: body))
    : marks.TagAhead (marks.wrap (b :: body) ++ after) :=
  ⟨[], b, body, after, rfl, by simp [Clear], hbody⟩

theorem TagAhead.append {marks : Marks} {before text : Bytes} (hbefore : marks.Clear before)
    (htext : marks.TagAhead text)
    : marks.TagAhead (before ++ text) := by
  rcases htext with ⟨between, b, body, after, rfl, hbetween, hbody⟩
  refine ⟨before ++ between, b, body, after, ?_, ?_, hbody⟩
  . simp only [List.append_assoc]
  . intro a ha
    cases List.mem_append.mp ha with
    | inl hmem => exact hbefore a hmem
    | inr hmem => exact hbetween a hmem

variable {delims : Delimiters} {b : UInt8} {body : Bytes}

theorem opening_eq_cons (delims : Delimiters) : ∃ b rest, delims.opening = b :: rest :=
  List.exists_cons_of_ne_nil delims.opening_ne_nil

theorem closing_eq_cons (delims : Delimiters) : ∃ b rest, delims.closing = b :: rest :=
  List.exists_cons_of_ne_nil delims.closing_ne_nil

def IsMark (marks : Marks) (b : UInt8) : Prop :=
  b ∈ marks.opening ∨ b ∈ marks.closing

theorem Clear.not_isMark {marks : Marks} {bytes : Bytes} (h : marks.Clear bytes) {b : UInt8}
    (hb : b ∈ bytes)
    : ¬ marks.IsMark b := by
  intro hmark
  cases hmark with
  | inl hopening => exact (h b hb).1 hopening
  | inr hclosing => exact (h b hb).2 hclosing

theorem avoids_clear {before : Bytes} (after needle : Bytes)
    (h : delims.Clear before)
    : Bytes.Avoids (delims.opening ++ needle) (before ++ after) before.length := by
  rcases opening_eq_cons delims with ⟨b, rest, hopening⟩
  rw [hopening, List.cons_append]
  apply Bytes.avoids_of_not_mem
  intro hb
  apply (h b hb).1
  rw [hopening]
  simp

theorem avoids_opening {b' : UInt8} {body' : Bytes} (after : Bytes)
    (hbody : delims.Clear (b :: body)) (hbody' : delims.Clear (b' :: body'))
    (hne : b :: body ≠ b' :: body')
    : Bytes.Avoids (delims.wrap (b :: body))
        (delims.opening ++ (b' :: body' ++ (delims.closing ++ after))) delims.opening.length := by
  intro i hi hoccurs
  unfold wrap at hoccurs
  rw [List.append_assoc, List.cons_append] at hoccurs
  rw [List.drop_append_of_le_length (Nat.le_of_lt hi)] at hoccurs
  -- Both marks end where a clear body begins, so they are equally long.
  have hmarks := eq_of_prefix_of_runs (fun _ ha => .inl ha) (fun _ ha => .inl (List.mem_of_mem_drop ha))
    (hbody.not_isMark (by simp)) (by simpa using hbody'.not_isMark (by simp)) hoccurs
  have hlength := congrArg List.length hmarks.1
  rw [List.length_drop] at hlength
  have hi : i = 0 := by omega
  rcases closing_eq_cons delims with ⟨c, rest, hclosing⟩
  have hc : c ∈ delims.closing := by
    rw [hclosing]
    simp
  have hbodies := hmarks.2
  rw [← List.cons_append, hclosing] at hbodies
  have hclear := eq_of_prefix_of_runs (p := fun a => ¬ delims.IsMark a) (fun _ ha => hbody.not_isMark ha)
    (fun _ ha => hbody'.not_isMark ha) (by simp [IsMark, hc]) (by simp [IsMark, hc]) hbodies
  exact hne hclear.1

theorem avoids_closing {text : Bytes} (hne : delims.opening ≠ delims.closing)
    (hbody : delims.Clear (b :: body)) (htext : delims.TagAhead text)
    : Bytes.Avoids (delims.wrap (b :: body)) (delims.closing ++ text) delims.closing.length := by
  intro i hi hoccurs
  rcases htext with ⟨before, b', body', after, rfl, hbefore, hbody'⟩
  unfold wrap at hoccurs
  rw [List.append_assoc, List.cons_append] at hoccurs
  rw [List.drop_append_of_le_length (Nat.le_of_lt hi)] at hoccurs
  have hopening : ∀ a ∈ delims.opening, delims.IsMark a := fun _ ha => .inl ha
  have hclosing : ∀ a ∈ delims.closing.drop i, delims.IsMark a :=
    fun _ ha => .inr (List.mem_of_mem_drop ha)
  cases before with
  | nil =>
    -- The next tag follows at once: the run of marks is longer than an opening mark.
    rw [List.nil_append, List.append_assoc, List.append_assoc, List.cons_append,
      ← List.append_assoc (delims.closing.drop i)] at hoccurs
    have hmarks := eq_of_prefix_of_runs hopening
      (fun a ha => (List.mem_append.mp ha).elim (hclosing a) (hopening a))
      (hbody.not_isMark (by simp)) (by simpa using hbody'.not_isMark (by simp)) hoccurs
    have hlength := congrArg List.length hmarks.1
    rw [List.length_append, List.length_drop] at hlength
    omega
  | cons a before =>
    -- Text follows: it would have to be the body of the tag, and the marks around it the same.
    rw [List.append_assoc, List.cons_append] at hoccurs
    have hmarks := eq_of_prefix_of_runs hopening hclosing (hbody.not_isMark (by simp))
      (by simpa using hbefore.not_isMark (by simp)) hoccurs
    have hbodies := hmarks.2
    rcases closing_eq_cons delims with ⟨c, rest, hcons⟩
    have hc : c ∈ delims.closing := by
      rw [hcons]
      simp
    rw [← List.cons_append, ← List.cons_append, hcons] at hbodies
    have hclear := eq_of_prefix_of_runs (p := fun a => ¬ delims.IsMark a)
      (fun _ ha => hbody.not_isMark ha) (fun _ ha => hbefore.not_isMark ha) (by simp [IsMark, hc])
      (by
        rcases opening_eq_cons delims with ⟨o, rest', ho⟩
        simp [ho, IsMark])
      hbodies
    have hend := hclear.2
    rw [← hcons, List.append_assoc, List.append_assoc, List.cons_append] at hend
    -- A closing mark at the start of an opening mark: this is where the two have to differ.
    have hinside := prefix_of_run (p := delims.IsMark) (fun _ ha => .inr ha)
      (by simpa using hbody'.not_isMark List.mem_cons_self) hend
    have hlength := congrArg List.length hmarks.1
    rw [List.length_drop] at hlength
    exact hne (hinside.eq_of_length_le (by omega)).symm

theorem avoids_wrap {b' : UInt8} {body' after : Bytes} {count : Nat}
    (hdiffer : delims.opening ≠ delims.closing) (hbody : delims.Clear (b :: body))
    (hbody' : delims.Clear (b' :: body')) (hne : b :: body ≠ b' :: body')
    (hahead : delims.TagAhead after) (hafter : Bytes.Avoids (delims.wrap (b :: body)) after count)
    : Bytes.Avoids (delims.wrap (b :: body)) (delims.wrap (b' :: body') ++ after)
        ((delims.wrap (b' :: body')).length + count) := by
  have hclosing := (avoids_closing hdiffer hbody hahead).append hafter
  have hinside : Bytes.Avoids (delims.wrap (b :: body)) (b' :: body' ++ (delims.closing ++ after))
      ((b' :: body').length + (delims.closing.length + count)) := by
    have := avoids_clear (delims.closing ++ after) (b :: body ++ delims.closing) hbody'
    rw [← List.append_assoc] at this
    exact this.append hclosing
  have hopening := (avoids_opening after hbody hbody' hne).append hinside
  have htext : delims.wrap (b' :: body') ++ after
      = delims.opening ++ (b' :: body' ++ (delims.closing ++ after)) := by
    unfold wrap
    simp only [List.append_assoc]
  have hlength : (delims.wrap (b' :: body')).length + count
      = delims.opening.length + ((b' :: body').length + (delims.closing.length + count)) := by
    unfold wrap
    simp only [List.length_append]
    omega
  rw [htext, hlength]
  exact hopening

end Marks

end Mustache
