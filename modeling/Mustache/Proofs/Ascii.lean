import Mustache.Proofs.Cuts
import Mustache.Proofs.Utf8

/-!
This module contains decoding next to ASCII bytes. Such a byte is a character of its own wherever it stands, also
behind bytes that are the beginning of a character, so a text can be cut there before or after it is decoded.
-/

namespace Mustache.Utf8

variable {x : UInt8} {before after bytes rest : Bytes}

def asciiChar (x : UInt8) : Char :=
  Char.ofNat x.toNat

theorem utf8EncodeChar_asciiChar (hx : x.toNat < 0x80) : String.utf8EncodeChar (asciiChar x) = [x] := by
  rcases (Spelled.one hx).encode with ⟨c, hc, hencode⟩
  unfold asciiChar
  rw [← hc, Char.ofNat_toNat, hencode]

theorem asciiChar_ne_replacement (hx : x.toNat < 0x80) : asciiChar x ≠ replacement := by
  intro h
  have hencode := utf8EncodeChar_asciiChar hx
  have hlength : (String.utf8EncodeChar replacement).length = 3 := by decide
  rw [← h, hencode] at hlength
  simp at hlength

theorem toList_decode (bytes : Bytes) : (decode bytes).toList = (scalars? bytes).map (·.getD replacement) := by
  unfold decode
  rw [String.toList_ofList]

/-- An ASCII byte continues no character, so it is left unread with all that stands behind it. -/
theorem readFollowing_append {n : Nat} {low high : UInt8} {bits : Nat} (hx : x.toNat < 0x80)
    (hlow : 0x80 ≤ low.toNat) (rest after : Bytes)
    : readFollowing n low high bits (rest ++ x :: after)
        =
      ((readFollowing n low high bits rest).1, (readFollowing n low high bits rest).2 ++ x :: after) := by
  fun_induction readFollowing n low high bits rest with
  | case1 => rw [readFollowing_zero]
  | case2 low high bits n =>
    have hrange : ¬ (low ≤ x ∧ x ≤ high) := by
      rw [UInt8.le_iff_toNat_le]
      omega
    rw [List.nil_append, readFollowing, if_neg hrange]
  | case3 low high bits n b rest hrange ih =>
    rw [List.cons_append, readFollowing, if_pos hrange]
    exact ih (by decide)
  | case4 low high bits n b rest hrange =>
    rw [List.cons_append, readFollowing, if_neg hrange]

theorem readFollowing_suffix (n : Nat) (low high : UInt8) (bits : Nat) (rest : Bytes)
    : (readFollowing n low high bits rest).2 <:+ rest := by
  fun_induction readFollowing n low high bits rest with
  | case1 => exact List.suffix_refl _
  | case2 => exact List.suffix_refl _
  | case3 low high bits n b rest hrange ih => exact ih.trans (List.suffix_cons b rest)
  | case4 => exact List.suffix_refl _

theorem Lead.low_le {b : UInt8} {lead : Lead} (h : Lead.ofByte? b = some lead) : 0x80 ≤ lead.low.toNat := by
  rw [Lead.ofByte?_eq_some_iff] at h
  rcases h with ⟨_, rfl⟩ | ⟨_, _, rfl⟩ | ⟨_, _, rfl⟩ | ⟨_, _, rfl⟩
  . exact Nat.le_refl _
  . exact Nat.le_refl _
  . dsimp only
    split <;> decide
  . dsimp only
    split <;> decide

theorem scalars?_ascii_cons (hx : x.toNat < 0x80) (after : Bytes)
    : scalars? (x :: after) = some (asciiChar x) :: scalars? after := by
  have := scalars?_utf8EncodeChar_append (asciiChar x) after
  rwa [utf8EncodeChar_asciiChar hx] at this

theorem scalars?_append (hx : x.toNat < 0x80) (before after : Bytes)
    : scalars? (before ++ x :: after) = scalars? before ++ some (asciiChar x) :: scalars? after := by
  fun_induction scalars? before with
  | case1 => exact scalars?_ascii_cons hx after
  | case2 b rest hlead ih =>
    rw [List.cons_append, scalars?, hlead]
    dsimp only
    rw [ih]
    rfl
  | case3 b rest lead hlead read ih =>
    have hread := @readFollowing_append x lead.following lead.low lead.high lead.bits hx (Lead.low_le hlead)
      rest after
    rw [List.cons_append, scalars?, hlead]
    dsimp only
    rw [hread]
    dsimp only
    rw [ih]
    rfl

theorem decode_append (hx : x.toNat < 0x80) (before after : Bytes)
    : (decode (before ++ x :: after)).toList
        =
      (decode before).toList ++ asciiChar x :: (decode after).toList := by
  simp [toList_decode, scalars?_append hx]

/-- A character that is an ASCII byte comes from no other byte than this one. -/
theorem mem_of_asciiChar_mem_scalars? (hx : x.toNat < 0x80) (h : some (asciiChar x) ∈ scalars? bytes)
    : x ∈ bytes := by
  fun_induction scalars? bytes with
  | case1 => contradiction
  | case2 b rest hlead ih =>
    have hrest : some (asciiChar x) ∈ scalars? rest := by simpa using h
    exact List.mem_cons_of_mem b (ih hrest)
  | case3 b rest lead hlead read ih =>
    rcases List.mem_cons.mp h with hhead | hrest
    . rcases Option.map_eq_some_iff.mp hhead.symm with ⟨v, hv, hchar⟩
      rcases spelled_of_read hlead (Prod.ext hv rfl) with ⟨tail, _, hspelled⟩
      rcases hspelled.encode with ⟨c, hc, hencode⟩
      have hsame : c = asciiChar x := by
        rw [← hchar, ← hc, Char.ofNat_toNat]
      rw [hsame, utf8EncodeChar_asciiChar hx, List.cons.injEq] at hencode
      rw [hencode.1]
      exact List.mem_cons_self
    . have hmem := ih hrest
      have hsuffix := readFollowing_suffix lead.following lead.low lead.high lead.bits rest
      exact List.mem_cons_of_mem b (hsuffix.subset hmem)

theorem asciiChar_mem_decode (hx : x.toNat < 0x80) (h : asciiChar x ∈ (decode bytes).toList) : x ∈ bytes := by
  rw [toList_decode, List.mem_map] at h
  rcases h with ⟨scalar?, hmem, hchar⟩
  cases scalar? with
  | none => exact absurd hchar.symm (asciiChar_ne_replacement hx)
  | some c =>
    rw [Option.getD_some] at hchar
    rw [hchar] at hmem
    exact mem_of_asciiChar_mem_scalars? hx hmem

theorem splitOn_decode (hx : x.toNat < 0x80) (bytes : Bytes)
    : (decode bytes).toList.splitOn (asciiChar x) = (bytes.splitOn x).map fun piece => (decode piece).toList := by
  cases hcut : cutAt? x bytes with
  | none =>
    rw [splitOn_of_cutAt?_eq_none hcut, List.map_singleton]
    apply List.splitOn_eq_singleton
    intro hmem
    exact cutAt?_eq_none_iff.mp hcut (asciiChar_mem_decode hx hmem)
  | some cut =>
    rcases cut with ⟨before, after⟩
    have hlength := length_of_cutAt? hcut
    rw [splitOn_of_cutAt?_eq_some hcut, List.map_cons, ← splitOn_decode hx after]
    rw [cutAt?_eq_some_iff] at hcut
    rw [hcut.1, decode_append hx]
    apply List.splitOn_append_cons_self_of_not_mem
    intro hmem
    exact hcut.2 (asciiChar_mem_decode hx hmem)
termination_by bytes.length

end Mustache.Utf8
