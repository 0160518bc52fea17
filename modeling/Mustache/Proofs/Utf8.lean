import Mustache.Text.Utf8

/-!
This module contains the byte strings that are whole characters. Where such a string begins inside
another one, no character of the other is cut in two: the first byte of a character tells.
-/

namespace Mustache.Utf8

theorem Lead.ofByte?_eq_some_iff (b : UInt8) (lead : Lead)
    : Lead.ofByte? b = some lead
        ↔
      (b.toNat < 0x80 ∧ lead = ⟨0, 0x80, 0xBF, b.toNat⟩)
        ∨ (0xC2 ≤ b.toNat ∧ b.toNat < 0xE0 ∧ lead = ⟨1, 0x80, 0xBF, b.toNat - 0xC0⟩)
        ∨ (0xE0 ≤ b.toNat ∧ b.toNat < 0xF0
          ∧ lead = ⟨2, if b = 0xE0 then 0xA0 else 0x80, if b = 0xED then 0x9F else 0xBF, b.toNat - 0xE0⟩)
        ∨ (0xF0 ≤ b.toNat ∧ b.toNat < 0xF5
          ∧ lead = ⟨3, if b = 0xF0 then 0x90 else 0x80, if b = 0xF4 then 0x8F else 0xBF, b.toNat - 0xF0⟩) := by
  unfold Lead.ofByte?
  simp only [UInt8.lt_iff_toNat_lt, UInt8.reduceToNat]
  split
  . grind
  split
  . grind
  split
  . grind
  split
  . grind
  split <;> grind

theorem readFollowing_zero (low high : UInt8) (bits : Nat) (rest : Bytes)
    : readFollowing 0 low high bits rest = (some bits, rest) := by
  unfold readFollowing
  rfl

theorem readFollowing_succ_eq_some_iff (n : Nat) (low high : UInt8) (bits v : Nat) (rest rest' : Bytes)
    : readFollowing (n + 1) low high bits rest = (some v, rest')
        ↔
      ∃ b after, rest = b :: after ∧ low.toNat ≤ b.toNat ∧ b.toNat ≤ high.toNat
        ∧ readFollowing n 0x80 0xBF (bits * 64 + (b.toNat - 0x80)) after = (some v, rest') := by
  cases rest with
  | nil => simp [readFollowing]
  | cons b after =>
    rw [readFollowing]
    simp only [UInt8.le_iff_toNat_le, List.cons.injEq]
    split
    . next hrange =>
      constructor
      . intro h
        exact ⟨b, after, ⟨rfl, rfl⟩, hrange.1, hrange.2, h⟩
      . rintro ⟨b', after', ⟨rfl, rfl⟩, _, _, h⟩
        exact h
    . next hrange =>
      constructor
      . intro h
        simp at h
      . rintro ⟨b', after', ⟨rfl, rfl⟩, hlow, hhigh, _⟩
        exact absurd ⟨hlow, hhigh⟩ hrange

def IsTail (b : UInt8) : Prop :=
  0x80 ≤ b.toNat ∧ b.toNat ≤ 0xBF

/-- The bytes of the character with a given number, by how many there are. -/
inductive Spelled : Nat → Bytes → Prop where
  | one {a : UInt8} (ha : a.toNat < 0x80) : Spelled a.toNat [a]
  | two {a b : UInt8} (ha : 0xC2 ≤ a.toNat) (ha' : a.toNat < 0xE0) (hb : IsTail b)
    : Spelled ((a.toNat - 0xC0) * 64 + (b.toNat - 0x80)) [a, b]
  | three {a b c : UInt8} (ha : 0xE0 ≤ a.toNat) (ha' : a.toNat < 0xF0) (hb : IsTail b) (hc : IsTail c)
    (hlow : a = 0xE0 → 0xA0 ≤ b.toNat) (hhigh : a = 0xED → b.toNat < 0xA0)
    : Spelled (((a.toNat - 0xE0) * 64 + (b.toNat - 0x80)) * 64 + (c.toNat - 0x80)) [a, b, c]
  | four {a b c d : UInt8} (ha : 0xF0 ≤ a.toNat) (ha' : a.toNat < 0xF5) (hb : IsTail b) (hc : IsTail c)
    (hd : IsTail d) (hlow : a = 0xF0 → 0x90 ≤ b.toNat) (hhigh : a = 0xF4 → b.toNat < 0x90)
    : Spelled ((((a.toNat - 0xF0) * 64 + (b.toNat - 0x80)) * 64 + (c.toNat - 0x80)) * 64 + (d.toNat - 0x80))
        [a, b, c, d]

theorem Spelled.encode {v : Nat} {bytes : Bytes} (h : Spelled v bytes)
    : ∃ c : Char, c.toNat = v ∧ bytes = String.utf8EncodeChar c := by
  have hvalid : v.isValidChar := by
    unfold Nat.isValidChar
    cases h with
    | one ha => omega
    | two ha ha' hb => unfold IsTail at *; omega
    | three ha ha' hb hc hlow hhigh =>
      unfold IsTail at *
      simp only [← UInt8.toNat_inj, UInt8.reduceToNat] at hlow hhigh
      omega
    | four ha ha' hb hc hd hlow hhigh =>
      unfold IsTail at *
      simp only [← UInt8.toNat_inj, UInt8.reduceToNat] at hlow hhigh
      omega
  have hv : (Char.ofNatAux v hvalid).toNat = v := rfl
  refine ⟨Char.ofNatAux v hvalid, hv, ?_⟩
  unfold String.utf8EncodeChar
  rw [Char.toNat_val, hv]
  dsimp
  cases h with
  | one ha =>
    rw [if_pos (by omega)]
    simp
  | two ha ha' hb =>
    unfold IsTail at *
    rw [if_neg (by omega), if_pos (by omega)]
    simp only [List.cons.injEq, ← UInt8.toNat_inj, UInt8.toNat_ofNat', and_true]
    omega
  | three ha ha' hb hc hlow hhigh =>
    unfold IsTail at *
    simp only [← UInt8.toNat_inj, UInt8.reduceToNat] at hlow hhigh
    rw [if_neg (by omega), if_neg (by omega), if_pos (by omega)]
    simp only [List.cons.injEq, ← UInt8.toNat_inj, UInt8.toNat_ofNat', and_true]
    omega
  | four ha ha' hb hc hd hlow hhigh =>
    unfold IsTail at *
    simp only [← UInt8.toNat_inj, UInt8.reduceToNat] at hlow hhigh
    rw [if_neg (by omega), if_neg (by omega), if_neg (by omega)]
    simp only [List.cons.injEq, ← UInt8.toNat_inj, UInt8.toNat_ofNat', and_true]
    omega

theorem spelled_utf8EncodeChar (c : Char) : Spelled c.toNat (String.utf8EncodeChar c) := by
  have hvalid := c.valid
  unfold UInt32.isValidChar Nat.isValidChar at hvalid
  unfold String.utf8EncodeChar
  rw [Char.toNat_val] at hvalid ⊢
  generalize c.toNat = v at hvalid
  dsimp
  split
  . have hv : (UInt8.ofNat v).toNat = v := by
      rw [UInt8.toNat_ofNat']
      omega
    have := @Spelled.one (UInt8.ofNat v) (by omega)
    rwa [hv] at this
  split
  . have := @Spelled.two (UInt8.ofNat (v / 64 % 32 + 192)) (UInt8.ofNat (v % 64 + 128))
    unfold IsTail at this
    simp only [UInt8.toNat_ofNat'] at this
    have hv : ((v / 64 % 32 + 192) % 2 ^ 8 - 192) * 64 + ((v % 64 + 128) % 2 ^ 8 - 128) = v := by omega
    rw [hv] at this
    apply this <;> omega
  split
  . have := @Spelled.three (UInt8.ofNat (v / 4096 % 16 + 224)) (UInt8.ofNat (v / 64 % 64 + 128))
      (UInt8.ofNat (v % 64 + 128))
    unfold IsTail at this
    simp only [← UInt8.toNat_inj, UInt8.toNat_ofNat', UInt8.reduceToNat] at this
    have hv : (((v / 4096 % 16 + 224) % 2 ^ 8 - 224) * 64 + ((v / 64 % 64 + 128) % 2 ^ 8 - 128)) * 64
        + ((v % 64 + 128) % 2 ^ 8 - 128) = v := by omega
    rw [hv] at this
    apply this <;> omega
  . have := @Spelled.four (UInt8.ofNat (v / 262144 % 8 + 240)) (UInt8.ofNat (v / 4096 % 64 + 128))
      (UInt8.ofNat (v / 64 % 64 + 128)) (UInt8.ofNat (v % 64 + 128))
    unfold IsTail at this
    simp only [← UInt8.toNat_inj, UInt8.toNat_ofNat', UInt8.reduceToNat] at this
    have hv : ((((v / 262144 % 8 + 240) % 2 ^ 8 - 240) * 64 + ((v / 4096 % 64 + 128) % 2 ^ 8 - 128)) * 64
        + ((v / 64 % 64 + 128) % 2 ^ 8 - 128)) * 64 + ((v % 64 + 128) % 2 ^ 8 - 128) = v := by omega
    rw [hv] at this
    apply this <;> omega

theorem Spelled.exists_cons {v : Nat} {bytes : Bytes} (h : Spelled v bytes)
    : ∃ a tail, bytes = a :: tail ∧ ¬ IsTail a ∧ ∀ b ∈ tail, IsTail b := by
  cases h with
  | one ha =>
    refine ⟨_, [], rfl, ?_, by simp⟩
    unfold IsTail
    omega
  | two ha ha' hb =>
    refine ⟨_, _, rfl, ?_, by simp [hb]⟩
    unfold IsTail
    omega
  | three ha ha' hb hc =>
    refine ⟨_, _, rfl, ?_, by simp [hb, hc]⟩
    unfold IsTail
    omega
  | four ha ha' hb hc hd =>
    refine ⟨_, _, rfl, ?_, by simp [hb, hc, hd]⟩
    unfold IsTail
    omega

/-- No byte of a longer character looks like one of a single byte. -/
theorem Spelled.single_or_high {v : Nat} {bytes : Bytes} (h : Spelled v bytes)
    : (∃ a, bytes = [a] ∧ a.toNat < 0x80) ∨ ∀ b ∈ bytes, 0x80 ≤ b.toNat := by
  cases h with
  | one ha => exact .inl ⟨_, rfl, ha⟩
  | two ha ha' hb =>
    right
    unfold IsTail at hb
    simp only [List.forall_mem_cons, List.not_mem_nil, false_implies, implies_true, and_true]
    omega
  | three ha ha' hb hc =>
    right
    unfold IsTail at hb hc
    simp only [List.forall_mem_cons, List.not_mem_nil, false_implies, implies_true, and_true]
    omega
  | four ha ha' hb hc hd =>
    right
    unfold IsTail at hb hc hd
    simp only [List.forall_mem_cons, List.not_mem_nil, false_implies, implies_true, and_true]
    omega

theorem Spelled.read {v : Nat} {a : UInt8} {tail : Bytes} (h : Spelled v (a :: tail)) (after : Bytes)
    : ∃ lead, Lead.ofByte? a = some lead
        ∧ readFollowing lead.following lead.low lead.high lead.bits (tail ++ after) = (some v, after) := by
  simp only [Lead.ofByte?_eq_some_iff]
  cases h with
  | one ha => exact ⟨_, .inl ⟨ha, rfl⟩, readFollowing_zero ..⟩
  | two ha ha' hb =>
    refine ⟨_, .inr (.inl ⟨ha, ha', rfl⟩), ?_⟩
    dsimp only
    rw [readFollowing_succ_eq_some_iff]
    exact ⟨_, _, rfl, hb.1, hb.2, readFollowing_zero ..⟩
  | three ha ha' hb hc hlow hhigh =>
    refine ⟨_, .inr (.inr (.inl ⟨ha, ha', rfl⟩)), ?_⟩
    dsimp only
    rw [readFollowing_succ_eq_some_iff]
    refine ⟨_, _, rfl, ?_, ?_, ?_⟩
    . split
      . next h => exact hlow h
      . exact hb.1
    . split
      . next h => exact Nat.le_of_lt_succ (hhigh h)
      . exact hb.2
    . rw [readFollowing_succ_eq_some_iff]
      exact ⟨_, _, rfl, hc.1, hc.2, readFollowing_zero ..⟩
  | four ha ha' hb hc hd hlow hhigh =>
    refine ⟨_, .inr (.inr (.inr ⟨ha, ha', rfl⟩)), ?_⟩
    dsimp only
    rw [readFollowing_succ_eq_some_iff]
    refine ⟨_, _, rfl, ?_, ?_, ?_⟩
    . split
      . next h => exact hlow h
      . exact hb.1
    . split
      . next h => exact Nat.le_of_lt_succ (hhigh h)
      . exact hb.2
    . rw [readFollowing_succ_eq_some_iff]
      refine ⟨_, _, rfl, hc.1, hc.2, ?_⟩
      rw [readFollowing_succ_eq_some_iff]
      exact ⟨_, _, rfl, hd.1, hd.2, readFollowing_zero ..⟩

theorem spelled_of_read {v : Nat} {a : UInt8} {rest after : Bytes} {lead : Lead}
    (hlead : Lead.ofByte? a = some lead)
    (hread : readFollowing lead.following lead.low lead.high lead.bits rest = (some v, after))
    : ∃ tail, rest = tail ++ after ∧ Spelled v (a :: tail) := by
  rw [Lead.ofByte?_eq_some_iff] at hlead
  rcases hlead with ⟨ha, rfl⟩ | ⟨ha, ha', rfl⟩ | ⟨ha, ha', rfl⟩ | ⟨ha, ha', rfl⟩
  . dsimp only at hread
    rw [readFollowing_zero, Prod.mk.injEq, Option.some.injEq] at hread
    rcases hread with ⟨rfl, rfl⟩
    exact ⟨[], rfl, .one ha⟩
  . dsimp only at hread
    rw [readFollowing_succ_eq_some_iff] at hread
    rcases hread with ⟨b, _, rfl, hb, hb', hread⟩
    rw [readFollowing_zero, Prod.mk.injEq, Option.some.injEq] at hread
    rcases hread with ⟨rfl, rfl⟩
    exact ⟨[b], rfl, .two ha ha' ⟨hb, hb'⟩⟩
  . dsimp only at hread
    rw [readFollowing_succ_eq_some_iff] at hread
    rcases hread with ⟨b, _, rfl, hb, hb', hread⟩
    rw [readFollowing_succ_eq_some_iff] at hread
    rcases hread with ⟨c, _, rfl, hc, hc', hread⟩
    rw [readFollowing_zero, Prod.mk.injEq, Option.some.injEq] at hread
    rcases hread with ⟨rfl, rfl⟩
    refine ⟨[b, c], rfl, .three ha ha' ?_ ⟨hc, hc'⟩ ?_ ?_⟩
    . unfold IsTail
      split at hb <;> split at hb' <;> simp only [UInt8.reduceToNat] at hb hb' <;> omega
    . intro h
      rwa [if_pos h] at hb
    . intro h
      rw [if_pos h] at hb'
      exact Nat.lt_succ_of_le hb'
  . dsimp only at hread
    rw [readFollowing_succ_eq_some_iff] at hread
    rcases hread with ⟨b, _, rfl, hb, hb', hread⟩
    rw [readFollowing_succ_eq_some_iff] at hread
    rcases hread with ⟨c, _, rfl, hc, hc', hread⟩
    rw [readFollowing_succ_eq_some_iff] at hread
    rcases hread with ⟨d, _, rfl, hd, hd', hread⟩
    rw [readFollowing_zero, Prod.mk.injEq, Option.some.injEq] at hread
    rcases hread with ⟨rfl, rfl⟩
    refine ⟨[b, c, d], rfl, .four ha ha' ?_ ⟨hc, hc'⟩ ⟨hd, hd'⟩ ?_ ?_⟩
    . unfold IsTail
      split at hb <;> split at hb' <;> simp only [UInt8.reduceToNat] at hb hb' <;> omega
    . intro h
      rwa [if_pos h] at hb
    . intro h
      rw [if_pos h] at hb'
      exact Nat.lt_succ_of_le hb'

def encodeAll (chars : List Char) : Bytes :=
  chars.flatMap String.utf8EncodeChar

theorem scalars?_utf8EncodeChar_append (c : Char) (after : Bytes)
    : scalars? (String.utf8EncodeChar c ++ after) = some c :: scalars? after := by
  have hspelled := spelled_utf8EncodeChar c
  rcases hspelled.exists_cons with ⟨a, tail, htext, _⟩
  rw [htext] at hspelled ⊢
  rcases hspelled.read after with ⟨lead, hlead, hread⟩
  rw [List.cons_append, scalars?, hlead]
  dsimp
  rw [hread]
  dsimp
  rw [Char.ofNat_toNat]

theorem scalars?_encodeAll_append (chars : List Char) (after : Bytes)
    : scalars? (encodeAll chars ++ after) = chars.map some ++ scalars? after := by
  induction chars with
  | nil => rfl
  | cons c chars ih =>
    unfold encodeAll at ih ⊢
    rw [List.flatMap_cons, List.append_assoc, scalars?_utf8EncodeChar_append, ih]
    rfl

theorem eq_encodeAll_of_scalars? {bytes : Bytes} {chars : List Char}
    (h : scalars? bytes = chars.map some)
    : bytes = encodeAll chars := by
  fun_induction scalars? bytes generalizing chars with
  | case1 =>
    rw [List.map_eq_nil_iff.mp h.symm]
    rfl
  | case2 a rest hlead ih =>
    cases chars with
    | nil => contradiction
    | cons c chars =>
      injection h
      contradiction
  | case3 a rest lead hlead read =>
    rename_i ih
    cases chars with
    | nil => contradiction
    | cons c chars =>
      rw [List.map_cons, List.cons.injEq, Option.map_eq_some_iff] at h
      rcases h with ⟨⟨v, hread, hv⟩, hafter⟩
      rcases spelled_of_read hlead (Prod.ext hread rfl) with ⟨tail, hrest, hspelled⟩
      rcases hspelled.encode with ⟨c', hc', hencode⟩
      have hsame : c' = c := by
        rw [← hv, ← hc', Char.ofNat_toNat]
      calc a :: rest
        _ = String.utf8EncodeChar c ++ encodeAll chars := by
          rw [hrest, ← List.cons_append, hencode, hsame, ← ih hafter]
        _ = encodeAll (c :: chars) := by
          unfold encodeAll
          rw [List.flatMap_cons]

def Valid (bytes : Bytes) : Prop :=
  ∃ chars, bytes = encodeAll chars

theorem scalars?_encodeAll (chars : List Char) : scalars? (encodeAll chars) = chars.map some := by
  have := scalars?_encodeAll_append chars []
  rwa [List.append_nil, scalars?, List.append_nil] at this

theorem isValid_iff (bytes : Bytes) : isValid bytes = true ↔ Valid bytes := by
  unfold isValid
  rw [List.all_eq_true]
  constructor
  . intro h
    refine ⟨(scalars? bytes).map (·.getD replacement), eq_encodeAll_of_scalars? ?_⟩
    rw [List.map_map]
    calc scalars? bytes
      _ = (scalars? bytes).map id := (List.map_id _).symm
      _ = (scalars? bytes).map (some ∘ (·.getD replacement)) := by
        apply List.map_congr_left
        intro scalar hscalar
        rcases Option.isSome_iff_exists.mp (h scalar hscalar) with ⟨c, rfl⟩
        rfl
  . rintro ⟨chars, rfl⟩ scalar hscalar
    rw [scalars?_encodeAll, List.mem_map] at hscalar
    rcases hscalar with ⟨c, _, rfl⟩
    rfl

theorem decode_encodeAll (chars : List Char) : decode (encodeAll chars) = String.ofList chars := by
  unfold decode
  rw [scalars?_encodeAll, List.map_map]
  congr
  exact List.map_id chars

theorem decode_encode (s : String) : decode (encode s) = s := by
  have := decode_encodeAll s.toList
  rwa [String.ofList_toList] at this

theorem Valid.encode_decode {bytes : Bytes} (h : Valid bytes) : encode (decode bytes) = bytes := by
  rcases h with ⟨chars, rfl⟩
  rw [decode_encodeAll]
  unfold encode
  rw [String.toList_ofList]
  rfl

theorem valid_encode (s : String) : Valid (encode s) :=
  ⟨s.toList, rfl⟩

theorem valid_nil : Valid [] :=
  ⟨[], rfl⟩

theorem Valid.append {before after : Bytes} (hbefore : Valid before) (hafter : Valid after)
    : Valid (before ++ after) := by
  rcases hbefore with ⟨chars, rfl⟩
  rcases hafter with ⟨chars', rfl⟩
  exact ⟨chars ++ chars', List.flatMap_append.symm⟩

theorem valid_singleton {b : UInt8} (h : b.toNat < 0x80) : Valid [b] := by
  rcases (Spelled.one h).encode with ⟨c, _, hencode⟩
  refine ⟨[c], ?_⟩
  unfold encodeAll
  rw [hencode, List.flatMap_singleton]

theorem valid_of_ascii {bytes : Bytes} (h : ∀ b ∈ bytes, b.toNat < 0x80) : Valid bytes := by
  induction bytes with
  | nil => exact valid_nil
  | cons b rest ih =>
    rw [List.forall_mem_cons] at h
    exact (valid_singleton h.1).append (ih h.2)

theorem valid_of_all {bytes : Bytes} (h : bytes.all (·.toNat < 0x80) = true) : Valid bytes := by
  apply valid_of_ascii
  intro b hb
  exact of_decide_eq_true (List.all_eq_true.mp h b hb)

theorem valid_flatten {pieces : List Bytes} (h : ∀ piece ∈ pieces, Valid piece)
    : Valid pieces.flatten := by
  induction pieces with
  | nil => exact valid_nil
  | cons piece pieces ih =>
    rw [List.forall_mem_cons] at h
    rw [List.flatten_cons]
    exact h.1.append (ih h.2)

theorem Valid.of_append_left {before after : Bytes} (hbefore : Valid before)
    (h : Valid (before ++ after))
    : Valid after := by
  rcases hbefore with ⟨chars, rfl⟩
  rw [← isValid_iff] at h ⊢
  unfold isValid at h ⊢
  rw [scalars?_encodeAll_append, List.all_append, Bool.and_eq_true] at h
  exact h.2

/-- A character that began before does not go on here. -/
def IsBoundary (bytes : Bytes) : Prop :=
  ∀ b ∈ bytes.head?, ¬ IsTail b

theorem Valid.isBoundary {bytes : Bytes} (h : Valid bytes) : IsBoundary bytes := by
  rcases h with ⟨chars, rfl⟩
  intro b hb
  cases chars with
  | nil => contradiction
  | cons c chars =>
    rcases (spelled_utf8EncodeChar c).exists_cons with ⟨a, tail, htext, ha, _⟩
    unfold encodeAll at hb
    rw [List.flatMap_cons, htext, List.cons_append, List.head?_cons, Option.mem_some] at hb
    rwa [← hb]

theorem valid_of_encodeAll_eq_append {before after : Bytes} {chars : List Char}
    (h : encodeAll chars = before ++ after) (hboundary : IsBoundary after)
    : Valid before := by
  induction chars generalizing before with
  | nil =>
    have := List.append_eq_nil_iff.mp h.symm
    rw [this.1]
    exact valid_nil
  | cons c chars ih =>
    unfold encodeAll at h ih
    rw [List.flatMap_cons, List.append_eq_append_iff] at h
    rcases h with ⟨more, hbefore, hrest⟩ | ⟨more, hchar, hafter⟩
    . rw [hbefore]
      apply Valid.append ⟨[c], ?_⟩ (ih hrest)
      unfold encodeAll
      rw [List.flatMap_singleton]
    . -- The cut is at one of the two ends of the character, or it is within.
      cases more with
      | nil =>
        rw [List.append_nil] at hchar
        refine ⟨[c], ?_⟩
        unfold encodeAll
        rw [List.flatMap_singleton, hchar]
      | cons b more =>
        cases before with
        | nil => exact valid_nil
        | cons a before =>
          rcases (spelled_utf8EncodeChar c).exists_cons with ⟨a', tail, htext, _, htail⟩
          rw [htext, List.cons_append, List.cons.injEq] at hchar
          have hb := htail b (by simp [hchar.2])
          refine absurd hb (hboundary b ?_)
          rw [hafter]
          rfl

theorem Valid.of_isBoundary {before after : Bytes} (h : Valid (before ++ after))
    (hboundary : IsBoundary after)
    : Valid before ∧ Valid after := by
  rcases h with ⟨chars, hchars⟩
  have hbefore := valid_of_encodeAll_eq_append hchars.symm hboundary
  exact ⟨hbefore, hbefore.of_append_left ⟨chars, hchars⟩⟩

theorem Valid.of_append_right {before after : Bytes} (hafter : Valid after)
    (h : Valid (before ++ after))
    : Valid before :=
  (h.of_isBoundary hafter.isBoundary).1

end Mustache.Utf8
