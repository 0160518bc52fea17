import Mustache.Proofs.Results
import Mustache.Proofs.Utf8
import Mustache.Text.Surrogate

/-!
This module contains what becomes of texts that hold surrogates when they are turned into bytes: which of them have
bytes, and that every byte string has a text.
-/

namespace Mustache

namespace Utf8

theorem le_of_ofByte?_eq_none {b : UInt8} (h : Lead.ofByte? b = none) : 0x80 ≤ b.toNat := by
  rw [← Nat.not_lt]
  intro hlt
  have hsome := (Lead.ofByte?_eq_some_iff b _).mpr (.inl ⟨hlt, rfl⟩)
  rw [h] at hsome
  contradiction

theorem readFollowing_eq_append {n : Nat} {low high : UInt8} {bits : Nat} {rest : Bytes} (hlow : 0x80 ≤ low.toNat)
    : ∃ tail, rest = tail ++ (readFollowing n low high bits rest).2 ∧ ∀ b ∈ tail, 0x80 ≤ b.toNat := by
  fun_induction readFollowing n low high bits rest with
  | case1 => exact ⟨[], rfl, List.forall_mem_nil _⟩
  | case2 => exact ⟨[], rfl, List.forall_mem_nil _⟩
  | case3 low high bits n b rest hrange ih =>
    rcases ih (by decide) with ⟨tail, hrest, htail⟩
    refine ⟨b :: tail, congrArg (b :: ·) hrest, ?_⟩
    rw [List.forall_mem_cons]
    exact ⟨Nat.le_trans hlow (UInt8.le_iff_toNat_le.mp hrange.1), htail⟩
  | case4 => exact ⟨[], rfl, List.forall_mem_nil _⟩

theorem of_readFollowing_eq_none {b : UInt8} {lead : Lead} {rest : Bytes} (hlead : Lead.ofByte? b = some lead)
    (h : (readFollowing lead.following lead.low lead.high lead.bits rest).1 = none)
    : ∃ tail, rest = tail ++ (readFollowing lead.following lead.low lead.high lead.bits rest).2
        ∧ ∀ c ∈ b :: tail, 0x80 ≤ c.toNat := by
  rw [Lead.ofByte?_eq_some_iff] at hlead
  have hlow : 0x80 ≤ lead.low.toNat := by
    rcases hlead with ⟨_, rfl⟩ | ⟨_, _, rfl⟩ | ⟨_, _, rfl⟩ | ⟨_, _, rfl⟩
    . exact Nat.le_refl _
    . exact Nat.le_refl _
    . dsimp only
      split <;> decide
    . dsimp only
      split <;> decide
  rcases @readFollowing_eq_append lead.following lead.low lead.high lead.bits rest hlow with ⟨tail, hrest, htail⟩
  refine ⟨tail, hrest, ?_⟩
  rw [List.forall_mem_cons]
  refine ⟨?_, htail⟩
  rcases hlead with ⟨_, rfl⟩ | ⟨hb, _⟩ | ⟨hb, _⟩ | ⟨hb, _⟩
  . rw [readFollowing_zero] at h
    contradiction
  . omega
  . omega
  . omega

end Utf8

namespace CodePoint

/-- Characters have bytes, and so have the surrogates that stand for a byte. -/
def HasBytes : CodePoint → Prop
  | char _ => True
  | surrogate offset => 0x480 ≤ offset.val ∧ offset.val < 0x500

theorem hasBytes_surrogate_iff (offset : Fin 0x800)
    : (surrogate offset).HasBytes ↔ ∃ b, (surrogate offset).byte? = some b := by
  unfold HasBytes byte?
  split <;> simp_all

theorem byte?_ofByte {b : UInt8} (h : 0x80 ≤ b.toNat) : (ofByte b).byte? = some b := by
  have hlt := b.toNat_lt
  unfold ofByte byte?
  dsimp only
  rw [if_pos (by omega), Nat.add_sub_cancel_left, Nat.toUInt8_eq, UInt8.ofNat_toNat]

end CodePoint

namespace Text

variable {s : Text} {bytes : Bytes} {fault : Fault}

theorem encodeFrom_surrogate {offset : Fin 0x800} {b : UInt8} (h : (CodePoint.surrogate offset).byte? = some b)
    (start : Nat) (rest : Text)
    : encodeFrom start (.surrogate offset :: rest) = (encodeFrom (start + 1) rest).map (b :: ·) := by
  rw [encodeFrom, h]
  nofun

theorem encodeFrom_surrogate_of_none {offset : Fin 0x800} (h : (CodePoint.surrogate offset).byte? = none)
    (start : Nat) (rest : Text)
    : encodeFrom start (.surrogate offset :: rest)
        = .error ⟨start, 1 + (rest.takeWhile fun c => c.char?.isNone).length, .surrogate offset⟩ := by
  rw [encodeFrom, h]
  nofun

theorem encodeFrom_isOk_iff (start : Nat) (s : Text)
    : (∃ bytes, encodeFrom start s = .ok bytes) ↔ ∀ c ∈ s, c.HasBytes := by
  induction s generalizing start with
  | nil => simp [encodeFrom]
  | cons c rest ih =>
    rw [List.forall_mem_cons]
    cases c with
    | char c => simp only [encodeFrom, map_isOk_iff, ih, CodePoint.HasBytes, true_and]
    | surrogate offset =>
      rw [CodePoint.hasBytes_surrogate_iff]
      cases hbyte : (CodePoint.surrogate offset).byte? with
      | none => simp [encodeFrom_surrogate_of_none hbyte]
      | some b => simp only [encodeFrom_surrogate hbyte, map_isOk_iff, ih, Option.some.injEq, exists_eq', true_and]

theorem encode_isOk_iff (s : Text) : (∃ bytes, s.encode = .ok bytes) ↔ ∀ c ∈ s, c.HasBytes :=
  encodeFrom_isOk_iff 0 s

/-- The fault tells the first character that has no bytes, where it is, and how many surrogates are there. -/
def Fault.IsFirstOf (fault : Fault) (start : Nat) (s : Text) : Prop :=
  ∃ before after, s = before ++ fault.first :: after
    ∧ (∀ c ∈ before, c.HasBytes) ∧ ¬ fault.first.HasBytes
    ∧ fault.start = start + before.length
    ∧ fault.length = 1 + (after.takeWhile fun c => c.char?.isNone).length

theorem Fault.IsFirstOf.cons {c : CodePoint} {start : Nat} (hc : c.HasBytes) (h : fault.IsFirstOf (start + 1) s)
    : fault.IsFirstOf start (c :: s) := by
  rcases h with ⟨before, after, rfl, hbefore, hfirst, hstart, hlength⟩
  refine ⟨c :: before, after, rfl, ?_, hfirst, ?_, hlength⟩
  . rw [List.forall_mem_cons]
    exact ⟨hc, hbefore⟩
  . rw [hstart, List.length_cons]
    omega

theorem isFirstOf_of_encodeFrom {start : Nat} (h : encodeFrom start s = .error fault) : fault.IsFirstOf start s := by
  induction s generalizing start with
  | nil => contradiction
  | cons c rest ih =>
    cases c with
    | char c =>
      rw [encodeFrom, map_eq_error_iff] at h
      exact (ih h).cons trivial
    | surrogate offset =>
      cases hbyte : (CodePoint.surrogate offset).byte? with
      | none =>
        rw [encodeFrom_surrogate_of_none hbyte] at h
        injection h with h
        rw [← h]
        refine ⟨[], rest, rfl, nofun, ?_, rfl, rfl⟩
        rw [CodePoint.hasBytes_surrogate_iff, hbyte]
        simp
      | some b =>
        rw [encodeFrom_surrogate hbyte, map_eq_error_iff] at h
        exact (ih h).cons ((CodePoint.hasBytes_surrogate_iff offset).mpr ⟨b, hbyte⟩)

theorem encodeFrom_of_isFirstOf {start : Nat} (h : fault.IsFirstOf start s) : encodeFrom start s = .error fault := by
  rcases h with ⟨before, after, rfl, hbefore, hfirst, hstart, hlength⟩
  induction before generalizing start with
  | nil =>
    rcases fault with ⟨position, length, first⟩
    dsimp only at hfirst hstart hlength ⊢
    rw [hstart, hlength]
    cases first with
    | char c => exact absurd trivial hfirst
    | surrogate offset =>
      rw [CodePoint.hasBytes_surrogate_iff, ← Option.isSome_iff_exists, Option.not_isSome_iff_eq_none] at hfirst
      exact encodeFrom_surrogate_of_none hfirst start after
  | cons c before ih =>
    rw [List.forall_mem_cons] at hbefore
    rw [List.length_cons] at hstart
    have hrest := @ih (start + 1) hbefore.2 (by omega)
    rw [List.cons_append]
    cases c with
    | char c => rw [encodeFrom, hrest, Except.map]
    | surrogate offset =>
      rcases (CodePoint.hasBytes_surrogate_iff offset).mp hbefore.1 with ⟨b, hbyte⟩
      rw [encodeFrom_surrogate hbyte, hrest, Except.map]

theorem encode_eq_error_iff (s : Text) (fault : Fault) : s.encode = .error fault ↔ fault.IsFirstOf 0 s :=
  ⟨isFirstOf_of_encodeFrom, encodeFrom_of_isFirstOf⟩

theorem encodeFrom_ofByte_append (start : Nat) {bytes : Bytes} (h : ∀ b ∈ bytes, 0x80 ≤ b.toNat) (rest : Text)
    : encodeFrom start (bytes.map .ofByte ++ rest)
        = (encodeFrom (start + bytes.length) rest).map (bytes ++ ·) := by
  induction bytes generalizing start with
  | nil =>
    rw [List.map_nil, List.nil_append, List.length_nil, Nat.add_zero]
    cases encodeFrom start rest <;> rfl
  | cons b bytes ih =>
    rw [List.forall_mem_cons] at h
    have hlength : start + 1 + bytes.length = start + (b :: bytes).length := by
      rw [List.length_cons]
      omega
    rw [List.map_cons, List.cons_append, CodePoint.ofByte,
      encodeFrom_surrogate (CodePoint.byte?_ofByte h.1), ih _ h.2, hlength]
    cases encodeFrom (start + (b :: bytes).length) rest <;> rfl

theorem encode_ofBytes (bytes : Bytes) : (ofBytes bytes).encode = .ok bytes := by
  have hfrom (start : Nat) : encodeFrom start (ofBytes bytes) = .ok bytes := by
    fun_induction ofBytes bytes generalizing start with
    | case1 => rfl
    | case2 b rest hlead ih =>
      have hb : 0x80 ≤ b.toNat := Utf8.le_of_ofByte?_eq_none hlead
      rw [CodePoint.ofByte, encodeFrom_surrogate (CodePoint.byte?_ofByte hb), ih]
      rfl
    | case3 b rest lead hlead read n hread ih =>
      rcases Utf8.spelled_of_read hlead (Prod.ext hread rfl) with ⟨tail, hrest, hspelled⟩
      rcases hspelled.encode with ⟨c, hc, htail⟩
      rw [← hc, Char.ofNat_toNat, encodeFrom, ih, Except.map, ← htail, List.cons_append, ← hrest]
    | case4 b rest lead hlead read hread ih =>
      rcases Utf8.of_readFollowing_eq_none hlead hread with ⟨tail, hrest, htail⟩
      have hlength : rest.length - read.2.length = tail.length := by
        rw [hrest, List.length_append]
        exact Nat.add_sub_cancel _ _
      have htake : (b :: rest).take (1 + (rest.length - read.2.length)) = b :: tail := by
        rw [hlength, Nat.add_comm, List.take_succ_cons, hrest, List.take_left']
        rfl
      rw [htake, encodeFrom_ofByte_append start htail, ih, Except.map, List.cons_append, ← hrest]
  exact hfrom 0

theorem encodeFrom_map_char (start : Nat) (chars : List Char)
    : encodeFrom start (chars.map .char) = .ok (Utf8.encodeAll chars) := by
  induction chars generalizing start with
  | nil => rfl
  | cons c chars ih =>
    rw [List.map_cons, encodeFrom, ih]
    rfl

theorem encode_map_char (chars : List Char) : encode (chars.map .char) = .ok (Utf8.encodeAll chars) :=
  encodeFrom_map_char 0 chars

theorem ofBytes_utf8EncodeChar_append (c : Char) (after : Bytes)
    : ofBytes (String.utf8EncodeChar c ++ after) = .char c :: ofBytes after := by
  have hspelled := Utf8.spelled_utf8EncodeChar c
  rcases hspelled.exists_cons with ⟨a, tail, htext, _⟩
  rw [htext] at hspelled ⊢
  rcases hspelled.read after with ⟨lead, hlead, hread⟩
  rw [List.cons_append, ofBytes, hlead]
  dsimp only
  rw [hread]
  dsimp only
  rw [Char.ofNat_toNat]

theorem ofBytes_encode (s : String) : ofBytes (Utf8.encode s) = ofString s := by
  unfold Utf8.encode ofString
  induction s.toList with
  | nil => rw [List.flatMap_nil, ofBytes, List.map_nil]
  | cons c chars ih => rw [List.flatMap_cons, ofBytes_utf8EncodeChar_append, ih, List.map_cons]

end Text

end Mustache
