import Mathlib.Logic.Function.Basic
import Mathlib.Tactic.SplitIfs
import Mustache.Text.Html

/-!
This module contains the reading of escaped text. The escaped forms of the bytes are a prefix code: a text
begins with one of them at most, so what was escaped can be read back byte by byte. The texts that can be
read are those in which nothing but entities needs escaping.
-/

namespace Mustache.Html

def ampersand : UInt8 := 0x26

/-- Backslash, quotes and angle brackets: the bytes besides the ampersand that have an entity. -/
def reserved : Bytes := [0x5C, 0x22, 0x27, 0x3C, 0x3E]

def special : Bytes := ampersand :: reserved

theorem isSome_entity?_iff (b : UInt8) : (entity? b).isSome ↔ b ∈ special := by
  unfold entity? special reserved ampersand
  simp only [List.mem_cons, List.not_mem_nil, or_false]
  split_ifs <;> simp [*]

theorem escapeByte_of_not_special {b : UInt8} (h : b ∉ special) : escapeByte b = [b] := by
  rw [← isSome_entity?_iff, Option.not_isSome_iff_eq_none] at h
  unfold escapeByte
  rw [h]
  rfl

theorem entity?_eq_some_iff (b : UInt8) (entity : Bytes)
    : entity? b = some entity ↔ b ∈ special ∧ escapeByte b = entity := by
  rw [← isSome_entity?_iff]
  unfold escapeByte
  cases entity? b <;> simp

theorem escapeByte_eq_cons (b : UInt8)
    : ∃ rest, escapeByte b = (if b ∈ special then ampersand else b) :: rest ∧ ∀ a ∈ rest, a ∉ special := by
  have hentities : ∀ a ∈ special, (escapeByte a).head? = some ampersand
      ∧ ∀ c ∈ (escapeByte a).tail, c ∉ special := by decide +kernel
  split
  . next hspecial =>
    rcases hentities b hspecial with ⟨hhead, htail⟩
    rw [List.head?_eq_some_iff] at hhead
    rcases hhead with ⟨rest, hform⟩
    rw [hform] at htail ⊢
    exact ⟨rest, rfl, htail⟩
  . next hspecial =>
    rw [escapeByte_of_not_special hspecial]
    exact ⟨[], rfl, by simp⟩

theorem length_escapeByte_pos (b : UInt8) : 0 < (escapeByte b).length := by
  rcases escapeByte_eq_cons b with ⟨rest, hform, _⟩
  rw [hform]
  simp

theorem eq_of_prefix_escapeByte {a b : UInt8} (h : escapeByte a <+: escapeByte b) : a = b := by
  have hentities : ∀ a ∈ special, ∀ b ∈ special, escapeByte a <+: escapeByte b → a = b := by
    decide +kernel
  cases Decidable.em (a ∈ special ∧ b ∈ special) with
  | inl hspecial => exact hentities a hspecial.1 b hspecial.2 h
  | inr hspecial =>
    rcases escapeByte_eq_cons a with ⟨rest, hform, _⟩
    rcases escapeByte_eq_cons b with ⟨rest', hform', _⟩
    rw [hform, hform', List.cons_prefix_cons] at h
    have hfirst := h.1
    have hampersand : ampersand ∈ special := List.mem_cons_self
    split_ifs at hfirst with ha hb hb
    . exact absurd ⟨ha, hb⟩ hspecial
    . rw [hfirst] at hampersand
      exact absurd hampersand hb
    . rw [← hfirst] at hampersand
      exact absurd hampersand ha
    . exact hfirst

/-- The byte whose escaped form the text `b :: rest` begins with. -/
def first? (b : UInt8) (rest : Bytes) : Option UInt8 :=
  (b :: special).find? fun a => (escapeByte a).isPrefixOf (b :: rest)

theorem first?_eq_some_iff (a b : UInt8) (rest : Bytes)
    : first? b rest = some a ↔ escapeByte a <+: b :: rest := by
  unfold first?
  constructor
  . intro h
    have := List.find?_some h
    rwa [List.isPrefixOf_iff_prefix] at this
  . intro hbegins
    have hcandidate : a ∈ b :: special := by
      cases Decidable.em (a ∈ special) with
      | inl hspecial => exact List.mem_cons_of_mem b hspecial
      | inr hspecial =>
        rw [escapeByte_of_not_special hspecial, List.cons_prefix_cons] at hbegins
        rw [hbegins.1]
        exact List.mem_cons_self
    cases hfind : (b :: special).find? fun a => (escapeByte a).isPrefixOf (b :: rest) with
    | none =>
      rw [List.find?_eq_none] at hfind
      exact absurd (List.isPrefixOf_iff_prefix.mpr hbegins) (hfind a hcandidate)
    | some found =>
      have hfound := List.find?_some hfind
      rw [List.isPrefixOf_iff_prefix] at hfound
      cases List.prefix_or_prefix_of_prefix hfound hbegins with
      | inl h => rw [eq_of_prefix_escapeByte h]
      | inr h => rw [eq_of_prefix_escapeByte h]

/-- Reads escaped text, and refuses all other. -/
def unescape? (text : Bytes) : Option Bytes :=
  match text with
  | [] => some []
  | b :: rest =>
    match first? b rest with
    | none => none
    | some a => (unescape? ((b :: rest).drop (escapeByte a).length)).map (a :: ·)
termination_by text.length
decreasing_by
  have := length_escapeByte_pos a
  rw [List.length_drop, List.length_cons]
  omega

theorem unescape?_escapeByte_append (b : UInt8) (rest : Bytes)
    : unescape? (escapeByte b ++ rest) = (unescape? rest).map (b :: ·) := by
  rcases escapeByte_eq_cons b with ⟨tail, hform, _⟩
  have hfirst := first?_eq_some_iff b (if b ∈ special then ampersand else b) (tail ++ rest)
  rw [← List.cons_append, ← hform] at hfirst
  have hfirst := hfirst.mpr (List.prefix_append _ _)
  rw [hform, List.cons_append, unescape?, hfirst]
  dsimp only
  rw [← List.cons_append, ← hform, List.drop_left]

theorem escape_eq_flatMap (text : Bytes) : escape text = text.flatMap escapeByte := by
  unfold escape
  split
  . rfl
  . next h =>
    rw [List.any_eq_true, not_exists] at h
    have hsame : ∀ b ∈ text, escapeByte b = [b] := by
      intro b hb
      apply escapeByte_of_not_special
      rw [← isSome_entity?_iff]
      exact fun hentity => h b ⟨hb, hentity⟩
    rw [List.flatMap_def, List.map_congr_left hsame, ← List.flatMap_def, List.flatMap_singleton']

theorem escape_cons (b : UInt8) (text : Bytes) : escape (b :: text) = escapeByte b ++ escape text := by
  rw [escape_eq_flatMap, escape_eq_flatMap, List.flatMap_cons]

theorem unescape?_escape (source : Bytes) : unescape? (escape source) = some source := by
  induction source with
  | nil => rw [escape_eq_flatMap, List.flatMap_nil, unescape?]
  | cons b source ih => rw [escape_cons, unescape?_escapeByte_append, ih, Option.map_some]

theorem eq_escape_of_unescape? {text source : Bytes} (h : unescape? text = some source)
    : text = escape source := by
  induction text using unescape?.induct generalizing source with
  | case1 =>
    rw [unescape?, Option.some.injEq] at h
    rw [← h, escape_eq_flatMap, List.flatMap_nil]
  | case2 b rest hnone =>
    rw [unescape?, hnone] at h
    contradiction
  | case3 b rest a hsome ih =>
    rw [unescape?, hsome] at h
    dsimp only at h
    rw [Option.map_eq_some_iff] at h
    rcases h with ⟨source, hrest, rfl⟩
    rw [first?_eq_some_iff] at hsome
    rw [escape_cons, ← ih hrest]
    exact List.prefix_iff_eq_append.mp hsome |>.symm

/-- Nothing needs escaping but the ampersands of entities. -/
structure IsEscaped (text : Bytes) : Prop where
  plain : ∀ b ∈ text, b ∉ reserved
  entities : ∀ i, text[i]? = some ampersand → ∃ b entity, entity? b = some entity ∧ entity <+: text.drop i

theorem isEscaped_escapeByte_append {rest : Bytes} (b : UInt8) (h : IsEscaped rest)
    : IsEscaped (escapeByte b ++ rest) := by
  rcases escapeByte_eq_cons b with ⟨tail, hform, htail⟩
  constructor
  . intro a ha
    rw [hform, List.cons_append, List.mem_cons, List.mem_append] at ha
    rcases ha with rfl | ha | ha
    . split
      . decide
      . next hspecial => exact fun hreserved => hspecial (List.mem_cons_of_mem _ hreserved)
    . exact fun hreserved => htail a ha (List.mem_cons_of_mem _ hreserved)
    . exact h.plain a ha
  . intro i hi
    cases Nat.lt_or_ge i (escapeByte b).length with
    | inl hlt =>
      rw [List.getElem?_append_left hlt, hform] at hi
      cases i with
      | zero =>
        have hspecial : b ∈ special := by
          by_contra hspecial
          rw [if_neg hspecial] at hi
          injection hi with hi
          rw [hi] at hspecial
          exact hspecial List.mem_cons_self
        exact ⟨b, _, (entity?_eq_some_iff b _).mpr ⟨hspecial, rfl⟩, List.prefix_append _ _⟩
      | succ i =>
        rw [List.getElem?_cons_succ] at hi
        exact absurd List.mem_cons_self (htail _ (List.mem_of_getElem? hi))
    | inr hge =>
      rw [List.getElem?_append_right hge] at hi
      rcases h.entities _ hi with ⟨a, entity, hentity, hbegins⟩
      refine ⟨a, entity, hentity, ?_⟩
      rwa [List.drop_append, List.drop_eq_nil_of_le hge, List.nil_append]

theorem isEscaped_escape (source : Bytes) : IsEscaped (escape source) := by
  induction source with
  | nil =>
    rw [escape_eq_flatMap, List.flatMap_nil]
    exact ⟨by simp, by simp⟩
  | cons b source ih =>
    rw [escape_cons]
    exact isEscaped_escapeByte_append b ih

theorem IsEscaped.exists_escapeByte_append {b : UInt8} {rest : Bytes} (h : IsEscaped (b :: rest))
    : ∃ a after, b :: rest = escapeByte a ++ after ∧ IsEscaped after := by
  have hfirst : ∃ a, escapeByte a <+: b :: rest := by
    cases Decidable.em (b ∈ special) with
    | inl hspecial =>
      rcases List.mem_cons.mp hspecial with rfl | hreserved
      . rcases h.entities 0 rfl with ⟨a, entity, hentity, hbegins⟩
        rw [entity?_eq_some_iff] at hentity
        rw [← hentity.2] at hbegins
        exact ⟨a, hbegins⟩
      . exact absurd hreserved (h.plain b List.mem_cons_self)
    | inr hspecial =>
      refine ⟨b, ?_⟩
      rw [escapeByte_of_not_special hspecial]
      exact ⟨rest, rfl⟩
  rcases hfirst with ⟨a, after, hsplit⟩
  refine ⟨a, after, hsplit.symm, ?_, ?_⟩
  . intro c hc
    apply h.plain
    rw [← hsplit]
    exact List.mem_append_right _ hc
  . intro i hi
    have hshift := h.entities ((escapeByte a).length + i)
    rw [← hsplit, List.getElem?_append_right (Nat.le_add_right _ _), Nat.add_sub_cancel_left,
      ← List.drop_drop, List.drop_left] at hshift
    exact hshift hi

theorem IsEscaped.exists_escape {text : Bytes} (h : IsEscaped text) : ∃ source, escape source = text := by
  cases text with
  | nil => exact ⟨[], rfl⟩
  | cons b rest =>
    rcases h.exists_escapeByte_append with ⟨a, after, hsplit, hafter⟩
    have hshorter : after.length < (b :: rest).length := by
      have := length_escapeByte_pos a
      rw [hsplit, List.length_append]
      omega
    rcases hafter.exists_escape with ⟨source, hsource⟩
    refine ⟨a :: source, ?_⟩
    rw [escape_cons, hsource, hsplit]
termination_by text.length
decreasing_by
  subst text
  exact hshorter

/--
Escaping goes byte by byte, whether there is anything to escape or not. What it gives are the texts in which
nothing needs escaping but the ampersands of entities, and each of them can be read in one way only.
-/
theorem escape_faithful
    : (∀ text text', escape (text ++ text') = escape text ++ escape text')
        ∧ (∀ text, (∃ source, escape source = text) ↔ IsEscaped text)
        ∧ (∀ text source, unescape? text = some source ↔ text = escape source)
        ∧ Function.Injective escape := by
  refine ⟨?_, ?_, ?_, ?_⟩
  . intro text text'
    rw [escape_eq_flatMap, escape_eq_flatMap, escape_eq_flatMap, List.flatMap_append]
  . intro text
    constructor
    . rintro ⟨source, rfl⟩
      exact isEscaped_escape source
    . exact IsEscaped.exists_escape
  . intro text source
    constructor
    . exact eq_escape_of_unescape?
    . rintro rfl
      exact unescape?_escape source
  . intro source source' h
    have hread := unescape?_escape source
    rw [h, unescape?_escape, Option.some.injEq] at hread
    exact hread.symm

/-- An entity in the source is text as any other. -/
example : unescape? (Bytes.ofAscii "&amp;lt;") = some (Bytes.ofAscii "&lt;") := by decide +kernel

end Mustache.Html
