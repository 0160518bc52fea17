import Mathlib.Data.List.Chain
import Mustache.Proofs.JsonReader

/-!
This module contains what texts and integers are written as in JSON. It is printable ASCII, and it is read back as
what it was written for: texts hold whatever characters they like, since none of them is written as it is if it means
something else there, or breaks the line.
-/

namespace Mustache

namespace CodePoint

theorem toNat_cases (c : Char) : c.toNat < 0xD800 ∨ 0xE000 ≤ c.toNat ∧ c.toNat < 0x110000 := by
  have hvalid := c.valid
  unfold UInt32.isValidChar Nat.isValidChar at hvalid
  unfold Char.toNat
  omega

theorem isHigh_iff (c : CodePoint) : c.isHigh = true ↔ 0xD800 ≤ c.toNat ∧ c.toNat < 0xDC00 := by
  cases c with
  | char c =>
    have := toNat_cases c
    simp only [isHigh, toNat_char, Bool.false_eq_true, false_iff]
    omega
  | surrogate offset =>
    simp only [isHigh, toNat_surrogate, decide_eq_true_eq]
    omega

theorem isLow_iff (c : CodePoint) : c.isLow = true ↔ 0xDC00 ≤ c.toNat ∧ c.toNat < 0xE000 := by
  cases c with
  | char c =>
    have := toNat_cases c
    simp only [isLow, toNat_char, Bool.false_eq_true, false_iff]
    omega
  | surrogate offset =>
    simp only [isLow, toNat_surrogate, decide_eq_true_eq]
    omega

theorem ofNat_toNat (c : CodePoint) : ofNat c.toNat = c := by
  unfold ofNat
  cases c with
  | char c =>
    have := toNat_cases c
    rw [dif_neg (by rw [toNat_char]; omega), toNat_char, Char.ofNat_toNat]
  | surrogate offset =>
    rw [dif_pos (by rw [toNat_surrogate]; omega)]
    simp

end CodePoint

namespace Json

open Quoted (unicodeEscape)

/-- Printable ASCII characters, of which a line break is none. -/
def IsPrintable (cs : List Char) : Prop :=
  ∀ c ∈ cs, 0x20 ≤ c.toNat ∧ c.toNat < 0x7F

variable {c : Char} {cs rest : List Char} {n : Nat}

theorem isPrintable_append (cs rest : List Char) : IsPrintable (cs ++ rest) ↔ IsPrintable cs ∧ IsPrintable rest := by
  unfold IsPrintable
  rw [List.forall_mem_append]

theorem isPrintable_cons (c : Char) (rest : List Char)
    : IsPrintable (c :: rest) ↔ (0x20 ≤ c.toNat ∧ c.toNat < 0x7F) ∧ IsPrintable rest := by
  unfold IsPrintable
  rw [List.forall_mem_cons]

theorem lowerDigit_cases (h : n < 16)
    : hexDigit? (Quoted.lowerDigit n) = some n
        ∧ 0x20 ≤ (Quoted.lowerDigit n).toNat ∧ (Quoted.lowerDigit n).toNat < 0x7F := by
  have hall : ∀ n < 16, hexDigit? (Quoted.lowerDigit n) = some n
      ∧ 0x20 ≤ (Quoted.lowerDigit n).toNat ∧ (Quoted.lowerDigit n).toNat < 0x7F := by decide
  exact hall n h

theorem hexadecimal_four (n : Nat)
    : Quoted.hexadecimal 4 n
        =
      [Quoted.lowerDigit (n / 4096 % 16), Quoted.lowerDigit (n / 256 % 16), Quoted.lowerDigit (n / 16 % 16),
        Quoted.lowerDigit (n % 16)] := by
  unfold Quoted.hexadecimal
  simp [List.range_succ]

theorem unit?_unicodeEscape (rest : List Char) (h : n < 0x10000)
    : unit? (unicodeEscape n ++ rest) = some (n, rest) := by
  have hdigit (m : Nat) : hexDigit? (Quoted.lowerDigit (m % 16)) = some (m % 16) :=
    (lowerDigit_cases (Nat.mod_lt m (by decide))).1
  unfold unicodeEscape
  rw [hexadecimal_four]
  simp only [List.cons_append, List.nil_append, unit?, hdigit, Option.some.injEq, Prod.mk.injEq, and_true]
  omega

theorem isPrintable_unicodeEscape (n : Nat) : IsPrintable (unicodeEscape n) := by
  have hdigit (m : Nat) := (lowerDigit_cases (n := m % 16) (Nat.mod_lt m (by decide))).2
  unfold unicodeEscape
  rw [hexadecimal_four]
  simp [hdigit, IsPrintable]

theorem char?_unit {rest' : List Char} (hunit : unit? cs = some (n, rest')) (h : pair? n rest' = none)
    : char? cs = some (.ofNat n, rest') := by
  unfold char?
  rw [hunit]
  dsimp only
  rw [h, Option.getD_none]

theorem char?_units {high low : Nat} {rest' : List Char} (hhigh : unit? cs = some (high, rest))
    (hlow : unit? rest = some (low, rest')) (h : 0xD800 ≤ high ∧ high < 0xDC00) (h' : 0xDC00 ≤ low ∧ low < 0xE000)
    : char? cs = some (.char (Char.ofNat (0x10000 + (high - 0xD800) * 0x400 + (low - 0xDC00))), rest') := by
  unfold char? pair?
  rw [hhigh]
  dsimp only
  rw [hlow]
  dsimp only
  rw [if_pos ⟨h, h'⟩, Option.getD_some]

theorem pair?_of_not_high (rest : List Char) (h : n < 0xD800 ∨ 0xDC00 ≤ n) : pair? n rest = none := by
  unfold pair?
  split
  . rw [if_neg (by omega)]
  . rfl

theorem unit?_of_ne (rest : List Char) (h : c ≠ '\\') : unit? (c :: rest) = none := by
  unfold unit?
  split
  . next heq =>
    injection heq with hc _
    contradiction
  . rfl

theorem char?_plain (rest : List Char) (h : 0x20 ≤ c.toNat) (hquote : c ≠ '"') (hbackslash : c ≠ '\\')
    : char? (c :: rest) = some (.char c, rest) := by
  unfold char?
  rw [unit?_of_ne rest hbackslash]
  split
  . contradiction
  . next heq =>
    injection heq with hc _
    contradiction
  . next heq =>
    injection heq with hc hrest
    rw [← hc, ← hrest, if_neg]
    simp only [hquote, hbackslash, or_self, or_false]
    omega
  . contradiction

theorem unit?_escaped {mark : Char} (rest : List Char) (h : escaped? mark = some c)
    : unit? ('\\' :: mark :: rest) = none := by
  unfold unit?
  split
  . next heq =>
    injection heq with _ heq
    injection heq with hmark _
    rw [hmark] at h
    contradiction
  . rfl

theorem char?_escaped {mark : Char} (rest : List Char) (h : escaped? mark = some c)
    : char? ('\\' :: mark :: rest) = some (.char c, rest) := by
  have hmapped : (escaped? mark).map (fun c => (CodePoint.char c, rest)) = some (.char c, rest) := by
    rw [h, Option.map_some]
  unfold char?
  rw [unit?_escaped rest h]
  exact hmapped

/-- A low surrogate is not what stands next. -/
def NoLow (cs : List Char) : Prop :=
  ∀ low rest, unit? cs = some (low, rest) → low < 0xDC00 ∨ 0xE000 ≤ low

theorem pair?_of_noLow (high : Nat) (h : NoLow cs) : pair? high cs = none := by
  unfold pair?
  split
  . next low rest hlow =>
    have := h low rest hlow
    rw [if_neg (by omega)]
  . rfl

theorem noLow_of_unit?_eq_none (h : unit? cs = none) : NoLow cs := by
  intro low rest hlow
  rw [h] at hlow
  contradiction

theorem noLow_of_unit? (hunit : unit? cs = some (n, rest)) (h : n < 0xDC00 ∨ 0xE000 ≤ n) : NoLow cs := by
  intro low after hlow
  rw [hunit] at hlow
  injection hlow with hlow
  injection hlow with hlow _
  rwa [← hlow]

/-- What is written for a character is printable and does not end a text, and the character is read back from it. -/
structure IsWritten (c : CodePoint) (written rest : List Char) : Prop where
  isPrintable : IsPrintable written
  head : written.head? ≠ some '"'
  char : char? (written ++ rest) = some (c, rest)
  noLow : c.isLow = false → NoLow (written ++ rest)

theorem isWritten_escaped {mark : Char} (rest : List Char) (h : escaped? mark = some c)
    (hmark : 0x20 ≤ mark.toNat ∧ mark.toNat < 0x7F)
    : IsWritten (.char c) ['\\', mark] rest where
  isPrintable := by simp [IsPrintable, hmark]
  head := by simp
  char := char?_escaped rest h
  noLow _ := noLow_of_unit?_eq_none (unit?_escaped rest h)

theorem isWritten_unicodeEscape {c : CodePoint} {rest : List Char} (hshort : c.toNat < 0x10000)
    (h : pair? c.toNat rest = none)
    : IsWritten c (unicodeEscape c.toNat) rest where
  isPrintable := isPrintable_unicodeEscape _
  head := by simp [unicodeEscape]
  char := by rw [char?_unit (unit?_unicodeEscape rest hshort) h, CodePoint.ofNat_toNat]
  noLow hlow := by
    rw [← Bool.not_eq_true, CodePoint.isLow_iff] at hlow
    exact noLow_of_unit? (unit?_unicodeEscape rest hshort) (by omega)

theorem isWritten_escapeChar (c : Char) (rest : List Char) : IsWritten (.char c) (escapeChar c) rest := by
  have hbyNumber {n : Nat} {c' : Char} (h : c.toNat = n) (h' : c'.toNat = n) : c' = c := by
    rw [← Char.toNat_inj, h, h']
  unfold escapeChar
  split
  . next h => exact isWritten_escaped rest (by rw [h]; rfl) (by decide)
  split
  . next h => exact isWritten_escaped rest (by rw [h]; rfl) (by decide)
  split
  . next h => exact isWritten_escaped rest (by rw [h]; rfl) (by decide)
  split
  . next h => exact isWritten_escaped rest (by rw [h]; rfl) (by decide)
  split
  . next h => exact isWritten_escaped rest (by rw [h]; rfl) (by decide)
  split
  . next h => exact isWritten_escaped rest (congrArg some (hbyNumber h rfl)) (by decide)
  split
  . next h => exact isWritten_escaped rest (congrArg some (hbyNumber h rfl)) (by decide)
  split
  . next hquote hbackslash _ _ _ _ _ hprintable =>
    exact {
      isPrintable := by simp [IsPrintable, hprintable]
      head := by simpa using hquote
      char := char?_plain rest hprintable.1 hquote hbackslash
      noLow := fun _ => noLow_of_unit?_eq_none (unit?_of_ne rest hbackslash) }
  have hvalid := CodePoint.toNat_cases c
  split
  . next hshort =>
    have hpair : pair? c.toNat rest = none := pair?_of_not_high rest (by omega)
    exact @isWritten_unicodeEscape (.char c) rest hshort hpair
  . have hhigh : 0xD800 + (c.toNat - 0x10000) / 0x400 < 0x10000 := by omega
    have hlow : 0xDC00 + (c.toNat - 0x10000) % 0x400 < 0x10000 := by omega
    have hunits := char?_units (unit?_unicodeEscape _ hhigh) (unit?_unicodeEscape rest hlow) (by omega) (by omega)
    have hsum : 0x10000 + (0xD800 + (c.toNat - 0x10000) / 0x400 - 0xD800) * 0x400
        + (0xDC00 + (c.toNat - 0x10000) % 0x400 - 0xDC00) = c.toNat := by omega
    rw [hsum, Char.ofNat_toNat] at hunits
    constructor
    . rw [isPrintable_append]
      exact ⟨isPrintable_unicodeEscape _, isPrintable_unicodeEscape _⟩
    . simp [unicodeEscape]
    . rw [List.append_assoc, hunits]
    . intro _
      rw [List.append_assoc]
      exact noLow_of_unit? (unit?_unicodeEscape _ hhigh) (by omega)

theorem isWritten_escapeCodePoint (c : CodePoint) {rest : List Char} (h : c.isHigh = true → NoLow rest)
    : IsWritten c (escapeCodePoint c) rest := by
  cases c with
  | char c => exact isWritten_escapeChar c rest
  | surrogate offset =>
    have hlt := offset.isLt
    apply isWritten_unicodeEscape
    . rw [CodePoint.toNat_surrogate]
      omega
    . by_cases hhigh : (CodePoint.surrogate offset).isHigh = true
      . exact pair?_of_noLow _ (h hhigh)
      . rw [CodePoint.isHigh_iff] at hhigh
        exact pair?_of_not_high rest (by omega)

theorem chars?_of_char? {c : CodePoint} (hhead : cs.head? ≠ some '"') (h : char? cs = some (c, rest))
    : chars? cs = (chars? rest).map fun (cs, rest) => (c :: cs, rest) := by
  rw [chars?.eq_def]
  split
  . contradiction
  . split
    . next hnone =>
      rw [h] at hnone
      contradiction
    . next hsome =>
      rw [h] at hsome
      injection hsome with hsome
      injection hsome with hc hrest
      rw [hc, hrest]

end Json

/-- The character that a high and a low surrogate make up. -/
def CodePoint.joined (high low : CodePoint) : CodePoint :=
  .char (Char.ofNat (0x10000 + (high.toNat - 0xD800) * 0x400 + (low.toNat - 0xDC00)))

namespace Text

/-- A text in which each high surrogate with a low one behind it has become the character that the two make up. -/
def joined : Text → Text
  | high :: low :: rest =>
    if high.isHigh ∧ low.isLow then high.joined low :: joined rest else high :: joined (low :: rest)
  | s => s

def Apart (s : Text) : Prop :=
  s.IsChain fun c d => c.isHigh = true → d.isLow = false

theorem joined_of_apart {s : Text} (h : s.Apart) : s.joined = s := by
  fun_induction joined s with
  | case1 high low rest hpair ih =>
    rw [Apart, List.isChain_cons_cons, hpair.2] at h
    exact absurd (h.1 hpair.1) (by decide)
  | case2 high low rest hpair ih =>
    rw [Apart, List.isChain_cons_cons] at h
    rw [ih h.2]
  | case3 => rfl

end Text

namespace Json

open Quoted (unicodeEscape)

variable {c : Char} {cs rest : List Char} {n : Nat} {s : Text}

theorem escapeCodePoint_of_surrogate {c : CodePoint} (h : c.isHigh = true ∨ c.isLow = true)
    : escapeCodePoint c = unicodeEscape c.toNat := by
  cases c with
  | char c => simp [CodePoint.isHigh, CodePoint.isLow] at h
  | surrogate offset => rfl

theorem noLow_escapeCodePoint {c : CodePoint} (rest : List Char) (h : c.isLow = false)
    : NoLow (escapeCodePoint c ++ rest) := by
  cases c with
  | char c => exact (isWritten_escapeChar c rest).noLow rfl
  | surrogate offset =>
    have hlt := offset.isLt
    have hshort : (CodePoint.surrogate offset).toNat < 0x10000 := by
      rw [CodePoint.toNat_surrogate]
      omega
    rw [← Bool.not_eq_true, CodePoint.isLow_iff] at h
    exact noLow_of_unit? (unit?_unicodeEscape rest hshort) (by omega)

theorem chars?_escapeCodePoint_append {c : CodePoint} (h : c.isHigh = true → NoLow cs)
    : chars? (escapeCodePoint c ++ cs) = (chars? cs).map fun (s, rest) => (c :: s, rest) := by
  have hwritten := isWritten_escapeCodePoint c h
  have hne : escapeCodePoint c ≠ [] := by
    intro hnil
    have hlength := length_of_char? hwritten.char
    rw [hnil] at hlength
    exact Nat.lt_irrefl _ hlength
  apply chars?_of_char? _ hwritten.char
  rw [List.head?_append_of_ne_nil _ hne]
  exact hwritten.head

theorem chars?_joined_append {high low : CodePoint} (hhigh : high.isHigh = true) (hlow : low.isLow = true)
    : chars? (escapeCodePoint high ++ (escapeCodePoint low ++ cs))
        = (chars? cs).map fun (s, rest) => (high.joined low :: s, rest) := by
  rw [escapeCodePoint_of_surrogate (.inl hhigh), escapeCodePoint_of_surrogate (.inr hlow)]
  rw [CodePoint.isHigh_iff] at hhigh
  rw [CodePoint.isLow_iff] at hlow
  apply chars?_of_char?
  . simp [unicodeEscape]
  . exact char?_units (unit?_unicodeEscape _ (by omega)) (unit?_unicodeEscape cs (by omega)) hhigh hlow

theorem chars?_flatMap (s : Text) (rest : List Char)
    : chars? (s.flatMap escapeCodePoint ++ '"' :: rest) = some (s.joined, rest) := by
  have hquote : chars? ('"' :: rest) = some ([], rest) := by rw [chars?]
  fun_induction Text.joined s with
  | case1 high low after hpair ih =>
    rw [List.flatMap_cons, List.flatMap_cons, List.append_assoc, List.append_assoc,
      chars?_joined_append hpair.1 hpair.2, ih]
    rfl
  | case2 high low after hpair ih =>
    have hnoLow (hhigh : high.isHigh = true) : NoLow ((low :: after).flatMap escapeCodePoint ++ '"' :: rest) := by
      rw [List.flatMap_cons, List.append_assoc]
      exact noLow_escapeCodePoint _ (by simpa [hhigh] using hpair)
    rw [List.flatMap_cons, List.append_assoc, chars?_escapeCodePoint_append hnoLow, ih]
    rfl
  | case3 s hshort =>
    have hnoLow : NoLow ('"' :: rest) := noLow_of_unit?_eq_none (unit?_of_ne rest (by decide))
    cases s with
    | nil => exact hquote
    | cons c after =>
      cases after with
      | nil =>
        rw [List.flatMap_singleton, chars?_escapeCodePoint_append fun _ => hnoLow, hquote]
        rfl
      | cons low after => exact absurd rfl (hshort c low after)

theorem text?_quote (s : Text) (rest : List Char) : text? (quote s ++ rest) = some (s.joined, rest) := by
  unfold quote
  rw [List.append_assoc, List.cons_append, List.singleton_append, text?, chars?_flatMap]

example : text? (quote [.surrogate 0x3D, .surrogate 0x600]) = some (Text.ofString "😀", []) := by
  decide +kernel

theorem isPrintable_quote (s : Text) : IsPrintable (quote s) := by
  have hchars : IsPrintable (s.flatMap escapeCodePoint) := by
    intro c hc
    rw [List.mem_flatMap] at hc
    rcases hc with ⟨source, _, hc⟩
    cases source with
    | char source => exact (isWritten_escapeChar source []).isPrintable c hc
    | surrogate offset => exact isPrintable_unicodeEscape _ c hc
  unfold quote
  rw [List.cons_append, isPrintable_cons, isPrintable_append]
  exact ⟨by decide, hchars, by simp [IsPrintable]⟩

/-- Nothing in front of which a number goes on. -/
def Ends (rest : List Char) : Prop :=
  ∀ c, rest.head? = some c → c.isDigit = false ∧ c ≠ '.' ∧ c ≠ 'e' ∧ c ≠ 'E'

theorem digits_append (hdigits : ∀ c ∈ cs, c.isDigit = true) (hrest : Ends rest)
    : digits (cs ++ rest) = (cs, rest) := by
  unfold digits
  rw [List.takeWhile_append_of_pos hdigits, List.dropWhile_append_of_pos hdigits]
  cases rest with
  | nil => simp
  | cons c rest =>
    have hc := (hrest c rfl).1
    rw [List.takeWhile_cons_of_neg (by simp [hc]), List.dropWhile_cons_of_neg (by simp [hc]), List.append_nil]

theorem head?_toDigits (h : 0 < n) : (Nat.toDigits 10 n).head? ≠ some '0' := by
  induction n using Nat.strongRecOn with
  | ind n ih =>
    rw [Nat.toDigits_eq_if (by decide)]
    split
    . have hne : n ≠ 0 := Nat.ne_of_gt h
      simpa using hne
    . rw [List.head?_append_of_ne_nil _ Nat.toDigits_ne_nil]
      exact ih (n / 10) (by omega) (by omega)

theorem isDigit_toDigits : ∀ c ∈ Nat.toDigits 10 n, c.isDigit = true :=
  fun _ hc => Nat.isDigit_of_mem_toDigits (by decide) (by decide) hc

theorem wholeDigits_toDigits (n : Nat) (hrest : Ends rest)
    : wholeDigits (Nat.toDigits 10 n ++ rest) = (Nat.toDigits 10 n, rest) := by
  cases n with
  | zero => rfl
  | succ n =>
    have hhead : (Nat.toDigits 10 (n + 1) ++ rest).head? ≠ some '0' := by
      rw [List.head?_append_of_ne_nil _ Nat.toDigits_ne_nil]
      exact head?_toDigits (Nat.succ_pos n)
    unfold wholeDigits
    split
    . next heq =>
      rw [heq] at hhead
      contradiction
    . exact digits_append isDigit_toDigits hrest

theorem fraction_of_ends (hrest : Ends rest) : fraction rest = ([], rest) := by
  unfold fraction
  split
  . exact absurd rfl (hrest _ rfl).2.1
  . rfl

theorem power?_of_ends (hrest : Ends rest) : power? rest = (none, rest) := by
  unfold power?
  split
  . have hmark := (hrest _ rfl).2.2
    rw [if_neg (by simp [hmark])]
  . rfl

theorem number?_of_minus (negative : Bool) (hminus : minus cs = (negative, Nat.toDigits 10 n ++ rest))
    (hrest : Ends rest) : number? cs = some (.int (signed negative n), rest) := by
  unfold number?
  rw [hminus]
  dsimp only
  rw [wholeDigits_toDigits n hrest]
  dsimp only
  rw [fraction_of_ends hrest]
  dsimp only
  rw [power?_of_ends hrest, if_neg Nat.toDigits_ne_nil, if_pos ⟨rfl, rfl⟩, Nat.ofDigitChars_ten_toDigits]

theorem toList_toString (n : Int)
    : (toString n).toList = (if n < 0 then ['-'] else []) ++ Nat.toDigits 10 n.natAbs := by
  rw [Int.toString_eq_repr, Int.repr_eq_if]
  split
  . next h =>
    rw [if_neg (by omega), Nat.toList_repr, List.nil_append]
    congr 1
    omega
  . next h =>
    rw [if_pos (by omega), String.toList_append, Nat.toList_repr]
    congr 2
    omega

theorem number?_toString (n : Int) (hrest : Ends rest)
    : number? ((toString n).toList ++ rest) = some (.int n, rest) := by
  rw [toList_toString]
  split
  . next h =>
    have hsigned : signed true n.natAbs = n := by
      unfold signed
      rw [if_pos rfl]
      omega
    rw [number?_of_minus true (n := n.natAbs) rfl hrest, hsigned]
  . next h =>
    have hsigned : signed false n.natAbs = n := by
      unfold signed
      rw [if_neg Bool.false_ne_true]
      omega
    have hminus : minus (Nat.toDigits 10 n.natAbs ++ rest) = (false, Nat.toDigits 10 n.natAbs ++ rest) := by
      unfold minus
      split
      . next heq =>
        have hdash : '-' ∈ Nat.toDigits 10 n.natAbs := by
          apply List.mem_of_mem_head?
          rw [← List.head?_append_of_ne_nil _ Nat.toDigits_ne_nil, heq]
          rfl
        exact absurd (isDigit_toDigits _ hdash) (by decide)
      . rfl
    rw [List.nil_append, number?_of_minus false hminus hrest, hsigned]

end Json

end Mustache
