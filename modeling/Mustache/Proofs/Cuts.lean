import Mustache.Cut

/-!
This module contains what the cut of a list at its first separator tells of the list, and of the pieces that it
is split into at all of its separators.
-/

namespace Mustache

variable [BEq α] [LawfulBEq α] {sep : α} {l before after : List α}

theorem cutAt?_eq_some (h : cutAt? sep l = some (before, after)) : l = before ++ sep :: after := by
  induction l generalizing before with
  | nil => contradiction
  | cons a rest ih =>
    unfold cutAt? at h
    split at h
    . next hsep =>
      rw [Option.some.injEq, Prod.mk.injEq] at h
      rw [← h.1, ← h.2, eq_of_beq hsep]
      rfl
    . rw [Option.map_eq_some_iff] at h
      rcases h with ⟨⟨before', after'⟩, hcut, hpair⟩
      rw [Prod.mk.injEq] at hpair
      dsimp at hpair
      rw [hpair.2] at hcut
      rw [← hpair.1, ih hcut]
      rfl

theorem cutAt?_append (h : sep ∉ before) (after : List α)
    : cutAt? sep (before ++ sep :: after) = some (before, after) := by
  induction before with
  | nil => simp [cutAt?]
  | cons a rest ih =>
    rw [List.mem_cons, not_or] at h
    simp [cutAt?, ih h.2, Ne.symm h.1]

theorem cutAt?_eq_none_iff : cutAt? sep l = none ↔ sep ∉ l := by
  constructor
  . intro h hmem
    rcases List.eq_append_cons_of_mem hmem with ⟨before, after, rfl, hbefore⟩
    rw [cutAt?_append hbefore] at h
    contradiction
  . intro h
    cases hcut : cutAt? sep l with
    | none => rfl
    | some cut =>
      apply absurd _ h
      rw [cutAt?_eq_some hcut]
      simp

theorem cutAt?_eq_some_iff
    : cutAt? sep l = some (before, after) ↔ l = before ++ sep :: after ∧ sep ∉ before := by
  constructor
  . intro h
    have hl := cutAt?_eq_some h
    have hmem : sep ∈ l := by simp [hl]
    -- The cut at the first separator is the one that is found.
    rcases List.eq_append_cons_of_mem hmem with ⟨before', after', hl', hbefore⟩
    rw [hl', cutAt?_append hbefore, Option.some.injEq, Prod.mk.injEq] at h
    rw [← h.1]
    refine ⟨?_, hbefore⟩
    rw [hl', h.2]
  . rintro ⟨rfl, h⟩
    apply cutAt?_append h

theorem splitOn_of_cutAt?_eq_some (h : cutAt? sep l = some (before, after))
    : l.splitOn sep = before :: after.splitOn sep := by
  rw [cutAt?_eq_some_iff] at h
  rw [h.1]
  exact List.splitOn_append_cons_self_of_not_mem h.2 after

theorem splitOn_of_cutAt?_eq_none (h : cutAt? sep l = none) : l.splitOn sep = [l] := by
  rw [cutAt?_eq_none_iff] at h
  exact List.splitOn_eq_singleton h

end Mustache
