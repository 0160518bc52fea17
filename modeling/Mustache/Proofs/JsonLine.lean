import Mustache.Proofs.JsonToken

/-!
This module contains what a JSON value is written as on one line. Values that hold no doubles are read back from it,
but for surrogates in them that make up a character.
-/

namespace Mustache.Json

variable {c : Char} {cs rest : List Char} {json : Json} {items : List Json} {members : List (Text × Json)}

theorem line_int (n : Int) : line (.int n) = (toString n).toList := by
  rfl

theorem line_text (s : Text) : line (.text s) = quote s := by
  rfl

theorem line_array (items : List Json) : line (.array items) = '[' :: lineItems items ++ [']'] := by
  rfl

theorem line_object (members : List (Text × Json))
    : line (.object members) = '\x7b' :: lineMembers members ++ ['\x7d'] := by
  rfl

theorem lineItems_singleton (item : Json) : lineItems [item] = line item := by
  rfl

theorem lineItems_cons (item next : Json) (items : List Json)
    : lineItems (item :: next :: items) = line item ++ ',' :: ' ' :: lineItems (next :: items) := by
  rfl

theorem lineMembers_singleton (name : Text) (value : Json)
    : lineMembers [(name, value)] = quote name ++ ':' :: ' ' :: line value := by
  rfl

theorem lineMembers_cons (name : Text) (value : Json) (next : Text × Json) (members : List (Text × Json))
    : lineMembers ((name, value) :: next :: members)
        = quote name ++ ':' :: ' ' :: line value ++ ',' :: ' ' :: lineMembers (next :: members) := by
  rfl

mutual

/-- A value with the characters that surrogates in its texts make up in place of these. -/
def joined : Json → Json
  | text s => text s.joined
  | array items => array (joinedItems items)
  | object members => object (joinedMembers members)
  | json => json

def joinedItems : List Json → List Json
  | [] => []
  | item :: rest => joined item :: joinedItems rest

def joinedMembers : List (Text × Json) → List (Text × Json)
  | [] => []
  | (name, value) :: rest => (name.joined, joined value) :: joinedMembers rest

end

/-- A value is read back from its line, whatever follows. -/
def IsReadBack (json : Json) : Prop :=
  ∀ depth rest, (line json).length ≤ depth → Ends rest → value? depth (line json ++ rest) = some (json.joined, rest)

theorem ends_nil : Ends [] := by
  simp [Ends]

theorem ends_cons (rest : List Char) (h : c = ',' ∨ c = ']' ∨ c = '\x7d') : Ends (c :: rest) := by
  rcases h with rfl | rfl | rfl <;> simp [Ends]

theorem value?_blank (depth : Nat) (rest : List Char) (h : isBlank c ∨ c = ']') : value? depth (c :: rest) = none := by
  cases depth with
  | zero => rfl
  | succ depth =>
    have hc : c = ' ' ∨ c = '\t' ∨ c = '\n' ∨ c = '\r' ∨ c = ']' := by
      simpa [isBlank, or_assoc] using h
    rcases hc with rfl | rfl | rfl | rfl | rfl <;> rfl

theorem IsReadBack.head (h : IsReadBack json)
    : ∃ c cs, line json = c :: cs ∧ isBlank c = false ∧ c ≠ ']' := by
  have hread := h (line json).length [] (Nat.le_refl _) ends_nil
  rw [List.append_nil] at hread
  cases hline : line json with
  | nil =>
    rw [hline] at hread
    contradiction
  | cons c cs =>
    rw [hline] at hread
    refine ⟨c, cs, rfl, ?_, ?_⟩
    . by_contra hblank
      rw [value?_blank _ cs (.inl (by simpa using hblank))] at hread
      contradiction
    . rintro rfl
      rw [value?_blank _ cs (.inr rfl)] at hread
      contradiction

theorem skip_of_not_blank (rest : List Char) (h : isBlank c = false) : skip (c :: rest) = c :: rest := by
  unfold skip
  rw [List.dropWhile_cons_of_neg (by simp [h])]

theorem skip_space (rest : List Char) (h : isBlank c = false) : skip (' ' :: c :: rest) = c :: rest := by
  have hspace : skip (' ' :: c :: rest) = skip (c :: rest) := rfl
  rw [hspace, skip_of_not_blank rest h]

theorem isReadBack_null : IsReadBack .null := by
  intro depth rest hdepth _
  cases depth with
  | zero => contradiction
  | succ depth => rfl

theorem isReadBack_bool (b : Bool) : IsReadBack (.bool b) := by
  intro depth rest hdepth _
  cases depth with
  | zero => cases b <;> contradiction
  | succ depth => cases b <;> rfl

theorem value?_number {depth : Nat} (h : cs.head? = some c) (hc : c.isDigit ∨ c = '-')
    : value? (depth + 1) cs = number? cs := by
  have hother {mark : Char} (hmark : cs.head? = some mark) : mark.isDigit ∨ mark = '-' := by
    rw [h] at hmark
    injection hmark with hmark
    rwa [← hmark]
  rw [value?.eq_def]
  dsimp only
  split
  . exact absurd (hother rfl) (by decide)
  . exact absurd (hother rfl) (by decide)
  . exact absurd (hother rfl) (by decide)
  . exact absurd (hother rfl) (by decide)
  . exact absurd (hother rfl) (by decide)
  . exact absurd (hother rfl) (by decide)
  . rfl

theorem isReadBack_int (n : Int) : IsReadBack (.int n) := by
  intro depth rest hdepth hrest
  have hnumber := number?_toString n hrest
  rw [line_int] at hdepth ⊢
  cases hcs : (toString n).toList with
  | nil =>
    rw [toList_toString] at hcs
    exact absurd (List.append_eq_nil_iff.mp hcs).2 Nat.toDigits_ne_nil
  | cons c cs =>
    rw [hcs] at hdepth hnumber
    cases depth with
    | zero => contradiction
    | succ depth =>
      change value? (depth + 1) _ = some (.int n, rest)
      rw [← hnumber, value?_number (c := c) rfl]
      have hc : c ∈ (toString n).toList := by
        rw [hcs]
        exact List.mem_cons_self
      rw [toList_toString, List.mem_append] at hc
      rcases hc with hc | hc
      . split at hc
        . exact .inr (List.mem_singleton.mp hc)
        . contradiction
      . exact .inl (isDigit_toDigits c hc)

theorem isReadBack_text (s : Text) : IsReadBack (.text s) := by
  intro depth rest hdepth _
  rw [line_text] at hdepth ⊢
  cases depth with
  | zero => contradiction
  | succ depth =>
    have htext : value? (depth + 1) (quote s ++ rest)
        = (text? (quote s ++ rest)).map fun found => (.text found.1, found.2) := rfl
    rw [htext, text?_quote s rest]
    rfl

theorem items?_last {depth : Nat} {item : Json} (h : value? depth cs = some (item, ']' :: rest))
    : items? (depth + 1) cs = some ([item], rest) := by
  rw [items?, h]
  rfl

theorem items?_more {depth : Nat} {item : Json} (h : value? depth cs = some (item, ',' :: rest))
    : items? (depth + 1) cs = (items? depth (skip rest)).map fun (items, rest) => (item :: items, rest) := by
  rw [items?, h]
  rfl

theorem value?_array {depth : Nat} (h : isBlank c = false) (hc : c ≠ ']')
    : value? (depth + 1) ('[' :: c :: cs)
        = (items? depth (c :: cs)).map fun (items, rest) => (.array items, rest) := by
  rw [value?, skip_of_not_blank cs h]
  split
  . next heq =>
    injection heq with heq _
    contradiction
  . rfl

theorem lineItems_head {item : Json} (h : IsReadBack item) (items : List Json)
    : ∃ c cs, lineItems (item :: items) = c :: cs ∧ isBlank c = false ∧ c ≠ ']' := by
  rcases h.head with ⟨c, cs, hline, hc⟩
  cases items with
  | nil =>
    rw [lineItems_singleton]
    exact ⟨c, cs, hline, hc⟩
  | cons next items =>
    rw [lineItems_cons, hline]
    exact ⟨c, _, rfl, hc⟩

theorem items?_lineItems (depth : Nat) (rest : List Char) (hne : items ≠ [])
    (h : ∀ item ∈ items, IsReadBack item) (hdepth : (lineItems items).length < depth)
    : items? depth (lineItems items ++ ']' :: rest) = some (joinedItems items, rest) := by
  induction items generalizing depth with
  | nil => contradiction
  | cons item items ih =>
    rw [List.forall_mem_cons] at h
    cases depth with
    | zero => contradiction
    | succ depth =>
      cases items with
      | nil =>
        rw [lineItems_singleton] at hdepth ⊢
        exact items?_last (h.1 depth _ (by omega) (ends_cons rest (by simp)))
      | cons next items =>
        rcases lineItems_head (h.2 next List.mem_cons_self) items with ⟨c, cs, hhead, hblank, _⟩
        rw [lineItems_cons, List.length_append, List.length_cons, List.length_cons] at hdepth
        have hitems := ih depth (List.cons_ne_nil next items) h.2 (by omega)
        have hitem := h.1 depth (',' :: ' ' :: (lineItems (next :: items) ++ ']' :: rest)) (by omega)
          (ends_cons _ (by simp))
        rw [lineItems_cons, List.append_assoc, List.cons_append, List.cons_append, items?_more hitem]
        rw [hhead, List.cons_append] at hitems ⊢
        rw [skip_space _ hblank, hitems]
        rfl

theorem isReadBack_array (h : ∀ item ∈ items, IsReadBack item) : IsReadBack (.array items) := by
  intro depth rest hdepth _
  rw [line_array] at hdepth ⊢
  cases depth with
  | zero => contradiction
  | succ depth =>
    cases items with
    | nil => rfl
    | cons item items =>
      have hitems := items?_lineItems depth rest (List.cons_ne_nil item items) h
        (by rw [List.length_append, List.length_cons, List.length_singleton] at hdepth; omega)
      rcases lineItems_head (h item List.mem_cons_self) items with ⟨c, cs, hhead, hblank, hc⟩
      rw [hhead] at hitems ⊢
      rw [List.append_assoc, List.cons_append, List.cons_append, value?_array hblank hc, List.singleton_append,
        ← List.cons_append, hitems]
      rfl

theorem members?_last {depth : Nat} {name : Text} {value : Json} {next : List Char}
    (hname : text? cs = some (name, ':' :: next)) (h : value? depth (skip next) = some (value, '\x7d' :: rest))
    : members? (depth + 1) cs = some ([(name, value)], rest) := by
  rw [members?, hname]
  simp only [skip_of_not_blank next (c := ':') rfl, h]
  rfl

theorem members?_more {depth : Nat} {name : Text} {value : Json} {next : List Char}
    (hname : text? cs = some (name, ':' :: next)) (h : value? depth (skip next) = some (value, ',' :: rest))
    : members? (depth + 1) cs
        = (members? depth (skip rest)).map fun (members, rest) => ((name, value) :: members, rest) := by
  rw [members?, hname]
  simp only [skip_of_not_blank next (c := ':') rfl, h]
  rfl

theorem value?_object {depth : Nat} (h : isBlank c = false) (hc : c ≠ '\x7d')
    : value? (depth + 1) ('\x7b' :: c :: cs)
        = (members? depth (c :: cs)).map fun (members, rest) => (.object members, rest) := by
  rw [value?, skip_of_not_blank cs h]
  split
  . next heq =>
    injection heq with heq _
    contradiction
  . rfl

theorem lineMembers_head (member : Text × Json) (members : List (Text × Json))
    : ∃ cs, lineMembers (member :: members) = '"' :: cs := by
  cases members with
  | nil => exact ⟨_, lineMembers_singleton member.1 member.2⟩
  | cons next members => exact ⟨_, lineMembers_cons member.1 member.2 next members⟩

theorem members?_lineMembers (depth : Nat) (rest : List Char) (hne : members ≠ [])
    (h : ∀ member ∈ members, IsReadBack member.2) (hdepth : (lineMembers members).length < depth)
    : members? depth (lineMembers members ++ '\x7d' :: rest) = some (joinedMembers members, rest) := by
  induction members generalizing depth with
  | nil => contradiction
  | cons member members ih =>
    rw [List.forall_mem_cons] at h
    rcases member with ⟨name, value⟩
    rcases h.1.head with ⟨c, cs, hline, hblank, _⟩
    cases depth with
    | zero => contradiction
    | succ depth =>
      cases members with
      | nil =>
        rw [lineMembers_singleton, List.length_append, List.length_cons, List.length_cons] at hdepth
        have hvalue := h.1 depth ('\x7d' :: rest) (by dsimp only; omega) (ends_cons rest (by simp))
        rw [lineMembers_singleton, List.append_assoc, List.cons_append, List.cons_append]
        apply members?_last (text?_quote name _)
        dsimp only at hvalue
        rw [hline, List.cons_append] at hvalue ⊢
        rw [skip_space _ hblank, hvalue]
      | cons next members =>
        rcases lineMembers_head next members with ⟨cs', hhead⟩
        rw [lineMembers_cons, List.length_append, List.length_append, List.length_cons, List.length_cons,
          List.length_cons, List.length_cons] at hdepth
        have hmembers := ih depth (List.cons_ne_nil next members) h.2 (by omega)
        have hvalue := h.1 depth (',' :: ' ' :: (lineMembers (next :: members) ++ '\x7d' :: rest))
          (by dsimp only; omega) (ends_cons _ (by simp))
        dsimp only at hvalue
        rw [lineMembers_cons]
        simp only [List.append_assoc, List.cons_append]
        rw [hline, List.cons_append] at hvalue ⊢
        rw [members?_more (text?_quote name _) (by rw [skip_space _ hblank, hvalue])]
        rw [hhead, List.cons_append] at hmembers ⊢
        rw [skip_space _ (by decide), hmembers]
        rfl

theorem isReadBack_object (h : ∀ member ∈ members, IsReadBack member.2) : IsReadBack (.object members) := by
  intro depth rest hdepth _
  rw [line_object] at hdepth ⊢
  cases depth with
  | zero => contradiction
  | succ depth =>
    cases members with
    | nil => rfl
    | cons member members =>
      have hmembers := members?_lineMembers depth rest (List.cons_ne_nil member members) h
        (by rw [List.length_append, List.length_cons, List.length_singleton] at hdepth; omega)
      rcases lineMembers_head member members with ⟨cs, hhead⟩
      rw [hhead] at hmembers ⊢
      rw [List.append_assoc, List.cons_append, List.cons_append, value?_object (by decide) (by decide),
        List.singleton_append, ← List.cons_append, hmembers]
      rfl

theorem IsReadBack.parse? (h : IsReadBack json) : Json.parse? (line json) = some json.joined := by
  have hread := h ((line json).length + 1) [] (Nat.le_succ _) ends_nil
  rcases h.head with ⟨c, cs, hline, hblank, _⟩
  rw [List.append_nil] at hread
  unfold Json.parse?
  rw [hline] at hread ⊢
  rw [skip_of_not_blank cs hblank, hread]
  rfl

theorem isPrintable_lineItems (h : ∀ item ∈ items, IsPrintable (line item)) : IsPrintable (lineItems items) := by
  induction items with
  | nil => exact List.forall_mem_nil _
  | cons item items ih =>
    rw [List.forall_mem_cons] at h
    cases items with
    | nil =>
      rw [lineItems_singleton]
      exact h.1
    | cons next items =>
      rw [lineItems_cons, isPrintable_append, isPrintable_cons, isPrintable_cons]
      exact ⟨h.1, by decide, by decide, ih h.2⟩

theorem isPrintable_lineMembers (h : ∀ member ∈ members, IsPrintable (line member.2))
    : IsPrintable (lineMembers members) := by
  induction members with
  | nil => exact List.forall_mem_nil _
  | cons member members ih =>
    rw [List.forall_mem_cons] at h
    have hmember : IsPrintable (quote member.1 ++ ':' :: ' ' :: line member.2) := by
      rw [isPrintable_append, isPrintable_cons, isPrintable_cons]
      exact ⟨isPrintable_quote member.1, by decide, by decide, h.1⟩
    cases members with
    | nil =>
      rw [lineMembers_singleton]
      exact hmember
    | cons next members =>
      rw [lineMembers_cons, isPrintable_append, isPrintable_cons, isPrintable_cons]
      exact ⟨hmember, by decide, by decide, ih h.2⟩

theorem isPrintable_array (h : ∀ item ∈ items, IsPrintable (line item)) : IsPrintable (line (.array items)) := by
  rw [line_array, isPrintable_append, isPrintable_cons]
  exact ⟨⟨by decide, isPrintable_lineItems h⟩, by simp [IsPrintable]⟩

theorem isPrintable_object (h : ∀ member ∈ members, IsPrintable (line member.2))
    : IsPrintable (line (.object members)) := by
  rw [line_object, isPrintable_append, isPrintable_cons]
  exact ⟨⟨by decide, isPrintable_lineMembers h⟩, by simp [IsPrintable]⟩

theorem isPrintable_int (n : Int) : IsPrintable (line (.int n)) := by
  have hdigit {c : Char} (h : c.isDigit) : 0x20 ≤ c.toNat ∧ c.toNat < 0x7F := by
    have hzero : '0'.toNat = 0x30 := rfl
    have hnine : '9'.toNat = 0x39 := rfl
    rw [Char.isDigit_iff_toNat] at h
    omega
  rw [line_int, toList_toString, isPrintable_append]
  refine ⟨?_, fun c hc => hdigit (isDigit_toDigits c hc)⟩
  split <;> simp [IsPrintable]

end Mustache.Json
