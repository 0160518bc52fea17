import Mathlib.Algebra.Order.Ring.Abs
import Mustache.Proofs.Rounding
import Mustache.Value.Empty

/-!
This module contains the sizes that decide whether an integer or a ratio is empty. It is from a size near the tolerance
on that numbers are not empty any more, and from another one on that there is no double to compare them with.
-/

namespace Mustache

namespace Value

open Binary64

variable {num den : Nat}

theorem isDouble_tolerance : IsDouble 4835703278458517 (-82) :=
  ⟨by decide, by decide, by decide, .inr (by decide)⟩

theorem tolerance_middle : ((4835703278458517 : Nat) + 1 / 2 : ℚ) * 2 ^ (-82 : Int) = 9671406556917035 / 2 ^ 83 := by
  norm_num

/-- Numbers up to the middle behind the tolerance are rounded to doubles that are near zero. -/
theorem isNearZero_iff {x : Binary64} (hden : 0 < den) (h : ofQuotient? false num den = some x)
    : x.isNearZero = true ↔ (num : ℚ) / den < 9671406556917035 / 2 ^ 83 := by
  rcases ofQuotient?_cases hden num false with ⟨m, e, hsome, _, hnearest⟩ | ⟨hnone, _⟩
  . have htolerance : ((4835703278458517 : Nat) : ℚ) / (Nat.pow 2 82 : Nat)
        = (4835703278458517 : Nat) * 2 ^ (-82 : Int) := by
      norm_num
    have hround := nearest_le_iff isDouble_tolerance hden num
    rw [below_odd_iff (by decide), tolerance_middle, hnearest] at hround
    rw [h, Option.some.injEq] at hsome
    unfold isNearZero
    rw [hsome, absLe_finite_iff _ _ _ (by decide), htolerance]
    exact hround
  . rw [hnone] at h
    contradiction

/-- The tolerance is the double nearest to `10 ^ -9`. -/
example : ofQuotient? false 1 (10 ^ 9) = some (.finite false 4835703278458517 (-82)) := by decide +kernel

/-- What the comparison of a quotient with the tolerance comes to, if the quotient is rounded to a double first. -/
theorem isEmpty_quotient (hden : 0 < den) (num : Nat) (error : MagnitudeError)
    : (match ofQuotient? false num den with
        | some x => Except.ok x.isNearZero
        | none => .error error)
        =
      if (num : ℚ) / den < 2 ^ 1024 - 2 ^ 970 then
        .ok (decide ((num : ℚ) / den < 9671406556917035 / 2 ^ 83))
      else
        .error error := by
  have hnone := ofQuotient?_eq_none_iff hden num false
  rw [zpow_ofNat, zpow_ofNat, ← not_lt] at hnone
  cases hquotient : ofQuotient? false num den with
  | none => rw [if_neg (hnone.mp hquotient)]
  | some x =>
    have hlt : (num : ℚ) / den < 2 ^ 1024 - 2 ^ 970 := by
      apply Classical.byContradiction
      intro hlarge
      rw [hnone.mpr hlarge] at hquotient
      contradiction
    have hnear : x.isNearZero = decide ((num : ℚ) / den < 9671406556917035 / 2 ^ 83) := by
      rw [Bool.eq_iff_iff, decide_eq_true_iff]
      exact isNearZero_iff hden hquotient
    rw [if_pos hlt, ← hnear]

theorem abs_eq_natAbs_div (q : ℚ) : (q.num.natAbs : ℚ) / q.den = |q| := by
  rw [Rat.abs_def, Rat.divInt_eq_div]
  rfl

theorem isEmpty_ratio (q : ℚ)
    : isEmpty (.ratio q)
        =
      if |q| < 2 ^ 1024 - 2 ^ 970 then .ok (decide (|q| < 9671406556917035 / 2 ^ 83)) else .error .ratio := by
  have hquotient := isEmpty_quotient q.den_pos q.num.natAbs .ratio
  rw [abs_eq_natAbs_div] at hquotient
  exact hquotient

/-- An integer that is not zero is larger than the tolerance. -/
theorem isEmpty_int (n : Int)
    : isEmpty (.int n) = if |n| < 2 ^ 1024 - 2 ^ 970 then .ok (decide (n = 0)) else .error .integer := by
  have hquotient := isEmpty_quotient Nat.one_pos n.natAbs .integer
  have habs : (n.natAbs : ℚ) / (1 : Nat) = (|n| : Int) := by
    rw [Nat.cast_one, div_one, Nat.cast_natAbs]
  have hlarge : ((|n| : Int) : ℚ) < 2 ^ 1024 - 2 ^ 970 ↔ |n| < 2 ^ 1024 - 2 ^ 970 := by
    have hbound : ((2 ^ 1024 - 2 ^ 970 : Int) : ℚ) = 2 ^ 1024 - 2 ^ 970 := by
      rw [Int.cast_sub, Int.cast_pow, Int.cast_pow, Int.cast_ofNat]
    rw [← hbound, Int.cast_lt]
  have hsmall : ((|n| : Int) : ℚ) < 9671406556917035 / 2 ^ 83 ↔ n = 0 := by
    constructor
    . intro hlt
      apply Classical.byContradiction
      intro hn
      have hone : (1 : Int) ≤ |n| := Int.one_le_abs hn
      have hcast : ((1 : Int) : ℚ) ≤ (|n| : Int) := Int.cast_le.mpr hone
      norm_num at hcast hlt
      linarith
    . rintro rfl
      norm_num
  rw [habs, if_congr hlarge rfl rfl, decide_eq_decide.mpr hsmall] at hquotient
  exact hquotient

theorem isEmpty_ratio_intCast (n : Int)
    : isEmpty (.ratio n) = (isEmpty (.int n)).mapError fun _ => .ratio := by
  unfold isEmpty
  dsimp only
  rw [Rat.num_intCast, Rat.den_intCast]
  cases ofQuotient? false n.natAbs 1 with
  | none => rfl
  | some => rfl

/--
Whether an integer or a ratio is empty depends on its size only: an integer is empty if it is zero, a ratio if it is
below a size near the tolerance, and from the middle behind the largest double on neither can be told. So signs make no
difference, smaller ratios than an empty one are empty, and an integer is as empty as the ratio that is equal to it.
-/
theorem isEmpty_by_size
    : (∀ n : Int,
        isEmpty (.int n) = if |n| < 2 ^ 1024 - 2 ^ 970 then .ok (decide (n = 0)) else .error .integer)
        ∧ (∀ q : ℚ,
          isEmpty (.ratio q)
            =
          if |q| < 2 ^ 1024 - 2 ^ 970 then .ok (decide (|q| < 9671406556917035 / 2 ^ 83)) else .error .ratio)
        ∧ (∀ q : ℚ, isEmpty (.ratio q) = .error .ratio ↔ 2 ^ 1024 - 2 ^ 970 ≤ |q|)
        ∧ (∀ q : ℚ, isEmpty (.ratio q) = isEmpty (.ratio (-q)))
        ∧ (∀ p q : ℚ, isEmpty (.ratio q) = .ok true → |p| ≤ |q| → isEmpty (.ratio p) = .ok true)
        ∧ ∀ n : Int, (∃ b, isEmpty (.int n) = .ok b ∧ isEmpty (.ratio n) = .ok b)
          ∨ isEmpty (.int n) = .error .integer ∧ isEmpty (.ratio n) = .error .ratio := by
  refine ⟨isEmpty_int, isEmpty_ratio, ?_, ?_, ?_, ?_⟩
  . intro q
    rw [isEmpty_ratio, ← not_lt]
    split
    . next hlt => exact iff_of_false (by simp) (not_not.mpr hlt)
    . next hle => exact iff_of_true rfl hle
  . intro q
    rw [isEmpty_ratio, isEmpty_ratio, abs_neg]
  . intro p q hq hle
    rw [isEmpty_ratio] at hq ⊢
    split at hq
    . next hlt =>
      rw [Except.ok.injEq, decide_eq_true_iff] at hq
      rw [if_pos (hle.trans_lt hlt), decide_eq_true (hle.trans_lt hq)]
    . contradiction
  . intro n
    have hratio := isEmpty_ratio_intCast n
    rw [isEmpty_int] at hratio ⊢
    split at hratio
    . next hlt =>
      rw [if_pos hlt]
      exact .inl ⟨_, rfl, hratio⟩
    . next hle =>
      rw [if_neg hle]
      exact .inr ⟨rfl, hratio⟩

/-- The ratio is empty though it is larger than the tolerance: it is rounded to it. -/
theorem isEmpty_by_size_beyond_tolerance
    : isEmpty (.ratio (-(9671406556917034 / 2 ^ 83 + 1 / 2 ^ 84))) = .ok true
        ∧ |(1 / 10 ^ 9 : ℚ)| ≤ |(-(9671406556917034 / 2 ^ 83 + 1 / 2 ^ 84) : ℚ)|
        ∧ isEmpty (.ratio (1 / 10 ^ 9)) = .ok true := by
  have hempty : isEmpty (.ratio (-(9671406556917034 / 2 ^ 83 + 1 / 2 ^ 84))) = .ok true := by
    decide +kernel
  have hle : |(1 / 10 ^ 9 : ℚ)| ≤ |(-(9671406556917034 / 2 ^ 83 + 1 / 2 ^ 84) : ℚ)| := by
    rw [abs_neg, abs_of_pos (by norm_num), abs_of_pos (by norm_num)]
    norm_num
  exact ⟨hempty, hle, isEmpty_by_size.2.2.2.2.1 _ _ hempty hle⟩

end Value

end Mustache
