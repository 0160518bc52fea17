import Mustache.Proofs.Ascii

/-!
This module contains what decoding gives, said without the reading of single bytes. Every byte string falls into
characters and broken parts in one way only, where a broken part is as long as the beginning of a character can be.
Whether there is a broken part shows when what was decoded is encoded again, and none goes on behind an ASCII byte.
-/

namespace Mustache.Utf8

/-- A whole character, or bytes that more bytes make one. -/
def Begins (part : Bytes) : Prop :=
  part ≠ [] ∧ ∃ v spelled, Spelled v spelled ∧ part <+: spelled

/--
The bytes in front of `rest` that are replaced together. There is no character here, and they are all that begins
one, or a single byte if it does not.
-/
structure Broken (part rest : Bytes) : Prop where
  no_character : ∀ v spelled, Spelled v spelled → ¬ spelled <+: part ++ rest
  begins_or_single : Begins part ∨ part.length = 1
  longest : ∀ other, other <+: part ++ rest → Begins other → other.length ≤ part.length

/-- The characters that bytes stand for, with the replacement character for each broken part. -/
inductive Decodes : Bytes → List Char → Prop where
  | nil : Decodes [] []
  | character {c : Char} {spelled rest : Bytes} {chars : List Char} (h : Spelled c.toNat spelled)
    (hrest : Decodes rest chars) : Decodes (spelled ++ rest) (c :: chars)
  | broken {part rest : Bytes} {chars : List Char} (h : Broken part rest) (hrest : Decodes rest chars)
    : Decodes (part ++ rest) (replacement :: chars)

variable {x a : UInt8} {part part' rest rest' tail left bytes spelled : Bytes} {chars : List Char} {v : Nat} {c : Char}

theorem Spelled.begins (h : Spelled v spelled) : Begins spelled := by
  refine ⟨?_, v, spelled, h, List.prefix_refl spelled⟩
  rcases h.exists_cons with ⟨a, tail, rfl, _⟩
  exact List.cons_ne_nil a tail

theorem begins_cons_iff
    : Begins (a :: tail)
        ↔
      ∃ lead, Lead.ofByte? a = some lead
        ∧ ∃ v more, readFollowing lead.following lead.low lead.high lead.bits (tail ++ more) = (some v, []) := by
  constructor
  . rintro ⟨_, v, spelled, hspelled, more, hmore⟩
    rw [← hmore, List.cons_append] at hspelled
    rcases hspelled.read [] with ⟨lead, hlead, hread⟩
    rw [List.append_nil] at hread
    exact ⟨lead, hlead, v, more, hread⟩
  . rintro ⟨lead, hlead, v, more, hread⟩
    rcases spelled_of_read hlead hread with ⟨tail', htail, hspelled⟩
    rw [List.append_nil] at htail
    rw [← htail] at hspelled
    exact ⟨List.cons_ne_nil a tail, v, _, hspelled, List.prefix_append (a :: tail) more⟩

theorem Broken.ne_nil (h : Broken part rest) : part ≠ [] := by
  rcases h.begins_or_single with hbegins | hsingle
  . exact hbegins.1
  . rintro rfl
    contradiction

theorem Broken.length_le (h : Broken part rest) (h' : Broken part' rest') (hsame : part ++ rest = part' ++ rest')
    : part'.length ≤ part.length := by
  rcases h'.begins_or_single with hbegins | hsingle
  . apply h.longest part' _ hbegins
    rw [hsame]
    exact List.prefix_append part' rest'
  . rw [hsingle]
    exact List.length_pos_iff.mpr h.ne_nil

theorem Broken.unique (h : Broken part rest) (h' : Broken part' rest') (hsame : part ++ rest = part' ++ rest')
    : part = part' ∧ rest = rest' := by
  apply List.append_inj hsame
  have := h.length_le h' hsame
  have := h'.length_le h hsame.symm
  omega

theorem broken_of_lead (h : Lead.ofByte? a = none) (rest : Bytes) : Broken [a] rest := by
  have hbegins (other : Bytes) (hother : other <+: [a] ++ rest) : ¬ Begins other := by
    intro hbegins
    rcases List.prefix_cons_iff.mp hother with rfl | ⟨tail, rfl, _⟩
    . exact hbegins.1 rfl
    . rcases begins_cons_iff.mp hbegins with ⟨lead, hlead, _⟩
      rw [h] at hlead
      contradiction
  constructor
  . intro v spelled hspelled hfront
    exact hbegins spelled hfront hspelled.begins
  . exact .inr rfl
  . intro other hother hbegin
    exact absurd hbegin (hbegins other hother)

theorem exists_readFollowing_eq_some (n : Nat) {low high : UInt8} (hrange : low ≤ high) (bits : Nat)
    : ∃ v more, readFollowing n low high bits more = (some v, []) := by
  induction n generalizing low high bits with
  | zero => exact ⟨bits, [], readFollowing_zero ..⟩
  | succ n ih =>
    rcases @ih 0x80 0xBF (by decide) (bits * 64 + (low.toNat - 0x80)) with ⟨v, more, hread⟩
    refine ⟨v, low :: more, ?_⟩
    rw [readFollowing, if_pos ⟨UInt8.le_refl low, hrange⟩, hread]

/--
A character that is given up was read as far as some character goes, and whatever comes after the next byte, it would
have been given up at that byte.
-/
theorem readFollowing_eq_none {n : Nat} {low high : UInt8} {bits : Nat} (hrange : low ≤ high)
    (h : readFollowing n low high bits rest = (none, left))
    : ∃ read, rest = read ++ left
        ∧ (∃ v more, readFollowing n low high bits (read ++ more) = (some v, []))
        ∧ ∀ b ∈ left.head?, ∀ after, (readFollowing n low high bits (read ++ b :: after)).1 = none := by
  fun_induction readFollowing n low high bits rest with
  | case1 =>
    rw [Prod.mk.injEq] at h
    exact absurd h.1 (Option.some_ne_none _)
  | case2 low high bits n =>
    rw [Prod.mk.injEq] at h
    refine ⟨[], h.2, exists_readFollowing_eq_some (n + 1) hrange bits, ?_⟩
    simp [← h.2]
  | case3 low high bits n b rest hb ih =>
    rcases ih (by decide) h with ⟨read, hrest, ⟨v, more, hread⟩, hstop⟩
    refine ⟨b :: read, ?_, ⟨v, more, ?_⟩, ?_⟩
    . rw [hrest, List.cons_append]
    . rw [List.cons_append, readFollowing, if_pos hb, hread]
    . intro b' hb' after
      rw [List.cons_append, readFollowing, if_pos hb]
      exact hstop b' hb' after
  | case4 low high bits n b rest hb =>
    rw [Prod.mk.injEq] at h
    refine ⟨[], h.2, exists_readFollowing_eq_some (n + 1) hrange bits, ?_⟩
    intro b' hb' after
    have hsame : b = b' := by simpa [← h.2] using hb'
    rw [List.nil_append, readFollowing, ← hsame, if_neg hb]

theorem Lead.low_le_high {lead : Lead} (h : Lead.ofByte? a = some lead) : lead.low ≤ lead.high := by
  rw [Lead.ofByte?_eq_some_iff] at h
  rcases h with ⟨_, rfl⟩ | ⟨_, _, rfl⟩ | ⟨_, _, rfl⟩ | ⟨_, _, rfl⟩
  . dsimp only
    decide
  . dsimp only
    decide
  . dsimp only
    split
    . next hlow =>
      rw [hlow]
      decide
    . split <;> decide
  . dsimp only
    split
    . next hlow =>
      rw [hlow]
      decide
    . split <;> decide

theorem broken_of_read {lead : Lead} (hlead : Lead.ofByte? a = some lead)
    (h : readFollowing lead.following lead.low lead.high lead.bits rest = (none, left))
    : ∃ read, rest = read ++ left ∧ Broken (a :: read) left := by
  rcases readFollowing_eq_none (Lead.low_le_high hlead) h with ⟨read, rfl, ⟨v, more, hread⟩, hstop⟩
  refine ⟨read, rfl, ?_, .inl ?_, ?_⟩
  . rintro v spelled hspelled ⟨after, hafter⟩
    rcases hspelled.exists_cons with ⟨a', tail, rfl, _⟩
    rw [List.cons_append, List.cons_append, List.cons.injEq] at hafter
    rcases hspelled.read after with ⟨lead', hlead', hread'⟩
    rw [hafter.1, hlead, Option.some.injEq] at hlead'
    rw [hafter.2, ← hlead', h] at hread'
    simp at hread'
  . exact begins_cons_iff.mpr ⟨lead, hlead, v, more, hread⟩
  . intro other hother hbegins
    -- A longer beginning has the byte in it at which the reading stopped.
    apply Nat.le_of_not_lt
    intro hlonger
    have hpart := List.prefix_of_prefix_length_le (List.prefix_append (a :: read) left) hother (Nat.le_of_lt hlonger)
    rcases hpart with ⟨extra, rfl⟩
    rw [List.prefix_append_right_inj] at hother
    cases extra with
    | nil => simp at hlonger
    | cons b extra =>
      rcases hother with ⟨after, rfl⟩
      rcases begins_cons_iff.mp hbegins with ⟨lead', hlead', v', more', hread'⟩
      rw [hlead, Option.some.injEq] at hlead'
      have hnone := hstop b (by simp) (extra ++ more')
      have hmore : read ++ b :: (extra ++ more') = (read ++ b :: extra) ++ more' := by simp
      rw [hmore, hlead'] at hnone
      exact Option.some_ne_none v' ((congrArg Prod.fst hread').symm.trans hnone)

theorem Spelled.scalars?_append (h : Spelled c.toNat spelled) (rest : Bytes)
    : scalars? (spelled ++ rest) = some c :: scalars? rest := by
  rcases h.encode with ⟨c', hc, rfl⟩
  rw [scalars?_utf8EncodeChar_append, Char.toNat_inj.mp hc]

/-- In front of every byte string there is a character or a broken part, and decoding takes it off. -/
theorem scalars?_cons_cases (a : UInt8) (rest : Bytes)
    : (∃ c spelled after, a :: rest = spelled ++ after ∧ Spelled c.toNat spelled
        ∧ scalars? (a :: rest) = some c :: scalars? after)
      ∨ (∃ part after, a :: rest = part ++ after ∧ Broken part after
        ∧ scalars? (a :: rest) = none :: scalars? after) := by
  cases hlead : Lead.ofByte? a with
  | none =>
    right
    refine ⟨[a], rest, rfl, broken_of_lead hlead rest, ?_⟩
    rw [scalars?, hlead]
  | some lead =>
    rcases hread : readFollowing lead.following lead.low lead.high lead.bits rest with ⟨v?, left⟩
    cases v? with
    | some v =>
      left
      rcases spelled_of_read hlead hread with ⟨tail, rfl, hspelled⟩
      rcases hspelled.encode with ⟨c, rfl, _⟩
      exact ⟨c, a :: tail, left, rfl, hspelled, hspelled.scalars?_append left⟩
    | none =>
      right
      rcases broken_of_read hlead hread with ⟨read, hrest, hbroken⟩
      refine ⟨a :: read, left, by rw [hrest, List.cons_append], hbroken, ?_⟩
      rw [scalars?, hlead]
      dsimp only
      rw [hread]
      rfl

theorem Broken.scalars?_append (h : Broken part rest) : scalars? (part ++ rest) = none :: scalars? rest := by
  rcases List.exists_cons_of_ne_nil h.ne_nil with ⟨a, tail, rfl⟩
  rw [List.cons_append]
  rcases scalars?_cons_cases a (tail ++ rest) with
    ⟨c, spelled, after, hfront, hspelled, _⟩ | ⟨part', after, hfront, hbroken, hscalars⟩
  . refine absurd ?_ (h.no_character c.toNat spelled hspelled)
    rw [List.cons_append, hfront]
    exact List.prefix_append spelled after
  . rw [hscalars, (h.unique hbroken hfront).2]

theorem decode_nil : (decode []).toList = [] := by
  simp [toList_decode, scalars?]

theorem Spelled.decode_append (h : Spelled c.toNat spelled) (rest : Bytes)
    : (decode (spelled ++ rest)).toList = c :: (decode rest).toList := by
  simp [toList_decode, h.scalars?_append]

theorem Broken.decode_append (h : Broken part rest)
    : (decode (part ++ rest)).toList = replacement :: (decode rest).toList := by
  simp [toList_decode, h.scalars?_append]

theorem decodes_decode (bytes : Bytes) : Decodes bytes (decode bytes).toList := by
  match bytes with
  | [] =>
    rw [decode_nil]
    exact .nil
  | a :: rest =>
    rcases scalars?_cons_cases a rest with ⟨c, spelled, after, hfront, h, _⟩ | ⟨part, after, hfront, h, _⟩
    . have hpos := List.length_pos_iff.mpr h.begins.1
      have hlength : (a :: rest).length = spelled.length + after.length := by rw [hfront, List.length_append]
      rw [hfront, h.decode_append]
      exact .character h (decodes_decode after)
    . have hpos := List.length_pos_iff.mpr h.ne_nil
      have hlength : (a :: rest).length = part.length + after.length := by rw [hfront, List.length_append]
      rw [hfront, h.decode_append]
      exact .broken h (decodes_decode after)
termination_by bytes.length
decreasing_by
  all_goals
    simp only [List.length_cons] at hlength ⊢
    omega

theorem Decodes.eq_decode (h : Decodes bytes chars) : chars = (decode bytes).toList := by
  induction h with
  | nil => rw [decode_nil]
  | character h hrest ih => rw [h.decode_append, ih]
  | broken h hrest ih => rw [h.decode_append, ih]

theorem decodes_iff : Decodes bytes chars ↔ chars = (decode bytes).toList := by
  constructor
  . exact Decodes.eq_decode
  . rintro rfl
    exact decodes_decode bytes

theorem valid_iff_pieces
    : Valid bytes ↔ ∃ pieces : List Bytes, bytes = pieces.flatten ∧ ∀ piece ∈ pieces, ∃ v, Spelled v piece := by
  constructor
  . rintro ⟨chars, rfl⟩
    refine ⟨chars.map String.utf8EncodeChar, rfl, ?_⟩
    intro piece hpiece
    rcases List.mem_map.mp hpiece with ⟨c, _, rfl⟩
    exact ⟨c.toNat, spelled_utf8EncodeChar c⟩
  . rintro ⟨pieces, rfl, hpieces⟩
    apply valid_flatten
    intro piece hpiece
    rcases hpieces piece hpiece with ⟨v, hspelled⟩
    rcases hspelled.encode with ⟨c, _, rfl⟩
    exact ⟨[c], by simp [encodeAll]⟩

theorem encode_decode_eq_iff : encode (decode bytes) = bytes ↔ Valid bytes := by
  constructor
  . intro h
    rw [← h]
    exact valid_encode (decode bytes)
  . exact Valid.encode_decode

theorem cutAt?_decode (hx : x.toNat < 0x80) (bytes : Bytes)
    : cutAt? (asciiChar x) (decode bytes).toList
        =
      (cutAt? x bytes).map fun cut => ((decode cut.1).toList, (decode cut.2).toList) := by
  cases hcut : cutAt? x bytes with
  | none =>
    rw [Option.map_none, cutAt?_eq_none_iff]
    intro hmem
    exact cutAt?_eq_none_iff.mp hcut (asciiChar_mem_decode hx hmem)
  | some cut =>
    rw [cutAt?_eq_some_iff] at hcut
    rw [Option.map_some, cutAt?_eq_some_iff, hcut.1, decode_append hx]
    refine ⟨rfl, ?_⟩
    intro hmem
    exact hcut.2 (asciiChar_mem_decode hx hmem)

/--
Encoding loses nothing. Decoding is defined everywhere, and it loses something exactly if not every piece is a whole
character. An ASCII byte is a seam: what stands before and after it is decoded on its own, so a cut there can come
first.
-/
theorem codec_faithful
    : (∀ s, decode (encode s) = s)
      ∧ (∀ bytes chars, Decodes bytes chars ↔ chars = (decode bytes).toList)
      ∧ (∀ bytes, encode (decode bytes) = bytes
          ↔
        ∃ pieces : List Bytes, bytes = pieces.flatten ∧ ∀ piece ∈ pieces, ∃ v, Spelled v piece)
      ∧ (∀ x : UInt8, x.toNat < 0x80 →
        (∀ before after, decode (before ++ x :: after) = decode before ++ String.singleton (asciiChar x) ++ decode after)
        ∧ (∀ bytes, cutAt? (asciiChar x) (decode bytes).toList
            = (cutAt? x bytes).map fun cut => ((decode cut.1).toList, (decode cut.2).toList))
        ∧ (∀ bytes, (decode bytes).toList.splitOn (asciiChar x)
            = (bytes.splitOn x).map fun piece => (decode piece).toList)) := by
  refine ⟨decode_encode, fun bytes chars => decodes_iff, ?_, ?_⟩
  . intro bytes
    rw [encode_decode_eq_iff, valid_iff_pieces]
  . intro x hx
    refine ⟨?_, cutAt?_decode hx, splitOn_decode hx⟩
    intro before after
    apply String.toList_inj.mp
    rw [decode_append hx]
    simp

/-- The first two bytes of `€` are one broken part, and the dot behind them is a dot. -/
theorem codec_faithful_behind_broken_part
    : Bytes.dot.toNat < 0x80
      ∧ decode ([0xE2, 0x82] ++ Bytes.dot :: [0x62]) = decode [0xE2, 0x82] ++ "." ++ decode [0x62]
      ∧ decode [0xE2, 0x82] = "\uFFFD" := by
  refine ⟨by decide, ?_, by decide +kernel⟩
  exact (codec_faithful.2.2.2 Bytes.dot (by decide)).1 [0xE2, 0x82] [0x62]

end Mustache.Utf8
