/-!
This module contains the cutting of lists at separators.
-/

namespace Mustache

def cutAt? [BEq α] (sep : α) : List α → Option (List α × List α)
  | [] => none
  | a :: rest => if a == sep then some ([], rest) else (cutAt? sep rest).map fun p => (a :: p.1, p.2)

theorem length_of_cutAt? [BEq α] {sep : α} {l before after : List α}
    (h : cutAt? sep l = some (before, after)) : l.length = before.length + 1 + after.length := by
  induction l generalizing before with
  | nil => simp [cutAt?] at h
  | cons a rest ih =>
    simp only [cutAt?] at h
    split at h
    . simp only [Option.some.injEq, Prod.mk.injEq] at h
      simp [← h.1, h.2]
      omega
    . simp only [Option.map_eq_some_iff, Prod.mk.injEq] at h
      obtain ⟨p, hp, rfl, rfl⟩ := h
      have := ih hp
      simp only [List.length_cons]
      omega

def pieces [BEq α] (sep : α) : List α → List (List α)
  | [] => [[]]
  | a :: rest =>
    if a == sep then
      [] :: pieces sep rest
    else
      match pieces sep rest with
      | [] => [[a]]
      | piece :: others => (a :: piece) :: others

end Mustache
