import Mathlib.Algebra.Order.Field.Power
import Mathlib.Data.Rat.Cast.Order
import Mathlib.Tactic.FieldSimp
import Mathlib.Tactic.Linarith
import Mathlib.Tactic.NormNum
import Mathlib.Tactic.Ring
import Mustache.Number.Binary64

/-!
This module contains the rounding of quotients to doubles as a comparison: what a quotient is rounded to is at most
some double if and only if the quotient stands before the middle between that double and the next one, or in the
middle if the mantissa of the double is even. Where rounding exceeds all doubles is the case of the largest one.
-/

namespace Mustache

namespace Binary64

variable {num den mantissa : Nat} {exponent : Int} {negative : Bool}

section Integers

theorem roundQuotient_le_iff (hden : 0 < den) (m : Nat)
    : roundQuotient num den ≤ m
        ↔
      2 * num < (2 * m + 1) * den ∨ 2 * num = (2 * m + 1) * den ∧ m % 2 = 0 := by
  have hnum := Nat.div_add_mod num den
  have hrest := Nat.mod_lt num hden
  have hmiddle : (2 * m + 1) * den = 2 * (den * m) + den := by ring
  unfold roundQuotient
  dsimp only
  rw [hmiddle]
  generalize num / den = quotient at *
  generalize num % den = rest at *
  rcases Nat.lt_trichotomy quotient m with hlt | rfl | hgt
  . have hbefore := Nat.mul_le_mul_left den (Nat.succ_le_of_lt hlt)
    rw [Nat.mul_succ] at hbefore
    split <;> omega
  . split <;> omega
  . have hbehind := Nat.mul_le_mul_left den (Nat.succ_le_of_lt hgt)
    rw [Nat.mul_succ] at hbehind
    split <;> omega

theorem zpow_eq (exponent : Int)
    : (2 : ℚ) ^ exponent = (Nat.pow 2 exponent.toNat : Nat) / (Nat.pow 2 (-exponent).toNat : Nat) := by
  simp only [Nat.pow_eq, Nat.cast_pow, Nat.cast_ofNat]
  rcases Int.le_total 0 exponent with hle | hle
  . have hneg : (-exponent).toNat = 0 := by omega
    rw [hneg, pow_zero, div_one, ← zpow_natCast, Int.toNat_of_nonneg hle]
  . have hpos : exponent.toNat = 0 := by omega
    have hnat : ((-exponent).toNat : Int) = -exponent := by omega
    rw [hpos, pow_zero, ← zpow_natCast, hnat, zpow_neg, one_div, inv_inv]

theorem scaled_pos (hden : 0 < den) (num : Nat) (exponent : Int) : 0 < (scaled num den exponent).2 :=
  Nat.mul_pos hden (Nat.pow_pos (by decide))

theorem scaled_div (num den : Nat) (exponent : Int)
    : ((scaled num den exponent).1 : ℚ) / (scaled num den exponent).2 = num / den / 2 ^ exponent := by
  have hpow : ∀ k, ((Nat.pow 2 k : Nat) : ℚ) ≠ 0 := by
    intro k
    exact Nat.cast_ne_zero.mpr (Nat.pow_pos (by decide)).ne'
  rw [zpow_eq]
  unfold scaled
  rw [Nat.cast_mul, Nat.cast_mul]
  have h₁ := hpow exponent.toNat
  have h₂ := hpow (-exponent).toNat
  field_simp

end Integers

section Exponents

theorem zpow_log2_le (hnum : num ≠ 0) : (2 : ℚ) ^ (num.log2 : Int) ≤ num := by
  rw [zpow_natCast]
  exact_mod_cast Nat.log2_self_le hnum

theorem lt_zpow_log2 (num : Nat) : (num : ℚ) < 2 ^ ((num.log2 : Int) + 1) := by
  have hlt : num < 2 ^ (num.log2 + 1) := Nat.lt_log2_self
  exact_mod_cast hlt

theorem zpow_mul_zpow (i j : Int) : (2 : ℚ) ^ i * 2 ^ j = 2 ^ (i + j) :=
  (zpow_add₀ two_ne_zero i j).symm

theorem zpow_le_zpow {i j : Int} (h : i ≤ j) : (2 : ℚ) ^ i ≤ 2 ^ j :=
  zpow_le_zpow_right₀ one_le_two h

/-- The lengths of the two numbers tell the size of the quotient, but for a factor of 2. -/
theorem div_mem_range (hnum : num ≠ 0) (hden : 0 < den)
    : (2 : ℚ) ^ ((num.log2 : Int) - den.log2 - 1) < num / den
        ∧ (num : ℚ) / den < 2 ^ ((num.log2 : Int) - den.log2 + 1) := by
  have hpos : (0 : ℚ) < den := Nat.cast_pos.mpr hden
  constructor
  . rw [lt_div_iff₀ hpos]
    calc (2 : ℚ) ^ ((num.log2 : Int) - den.log2 - 1) * den
      _ < 2 ^ ((num.log2 : Int) - den.log2 - 1) * 2 ^ ((den.log2 : Int) + 1) := by
        apply mul_lt_mul_of_pos_left (lt_zpow_log2 den)
        positivity
      _ = 2 ^ (num.log2 : Int) := by
        rw [zpow_mul_zpow]
        congr 1
        omega
      _ ≤ num := zpow_log2_le hnum
  . rw [div_lt_iff₀ hpos]
    calc (num : ℚ)
      _ < 2 ^ ((num.log2 : Int) + 1) := lt_zpow_log2 num
      _ = 2 ^ ((num.log2 : Int) - den.log2 + 1) * 2 ^ (den.log2 : Int) := by
        rw [zpow_mul_zpow]
        congr 1
        omega
      _ ≤ 2 ^ ((num.log2 : Int) - den.log2 + 1) * den := by
        apply mul_le_mul_of_nonneg_left (zpow_log2_le hden.ne')
        positivity

theorem scaled_div_lt_iff (hden : 0 < den) (num : Nat) (exponent : Int)
    : (scaled num den exponent).1 / (scaled num den exponent).2 < leastNormal
        ↔
      (num : ℚ) / den < 2 ^ (exponent + 52) := by
  have hpos : (0 : ℚ) < (scaled num den exponent).2 := Nat.cast_pos.mpr (scaled_pos hden num exponent)
  have hpow : (0 : ℚ) < 2 ^ exponent := by positivity
  have hnormal : ((leastNormal : Nat) : ℚ) = 2 ^ (52 : Int) := by norm_num [leastNormal]
  rw [Nat.div_lt_iff_lt_mul (scaled_pos hden num exponent), ← Nat.cast_lt (α := ℚ), Nat.cast_mul,
    ← div_lt_iff₀ hpos, scaled_div, div_lt_iff₀ hpow, hnormal, zpow_mul_zpow, add_comm]

theorem le_exponentOf (num den : Nat) : -1074 ≤ exponentOf num den :=
  Int.le_max_left _ _

/-- At the exponent the quotient has 53 binary digits before the point, or fewer if the exponent is the least one. -/
theorem exponentOf_bounds (hnum : num ≠ 0) (hden : 0 < den)
    : (num : ℚ) / den < 2 ^ (exponentOf num den + 53)
        ∧ (exponentOf num den = -1074 ∨ 2 ^ (exponentOf num den + 52) ≤ (num : ℚ) / den) := by
  have hrange := div_mem_range hnum hden
  have hguess := scaled_div_lt_iff hden num ((num.log2 : Int) - den.log2 - 52)
  unfold exponentOf
  dsimp only
  rw [if_congr hguess rfl rfl]
  generalize (num.log2 : Int) - den.log2 = difference at *
  split
  . next hlt =>
    constructor
    . exact hlt.trans_le (zpow_le_zpow (by omega))
    . by_cases hlow : difference - 52 - 1 ≤ -1074
      . exact .inl (by omega)
      . right
        have hexponent : max (-1074) (difference - 52 - 1) + 52 = difference - 1 := by omega
        rw [hexponent]
        exact hrange.1.le
  . next hle =>
    constructor
    . exact hrange.2.trans_le (zpow_le_zpow (by omega))
    . by_cases hlow : difference - 52 ≤ -1074
      . exact .inl (by omega)
      . right
        have hexponent : max (-1074) (difference - 52) + 52 = difference - 52 + 52 := by omega
        rw [hexponent]
        exact not_lt.mp hle

end Exponents

section Nearest

/-- A finite double of a mantissa and an exponent. -/
structure IsDouble (mantissa : Nat) (exponent : Int) : Prop where
  lt : mantissa < 2 * leastNormal
  low : -1074 ≤ exponent
  high : exponent ≤ 971
  normal : exponent = -1074 ∨ leastNormal ≤ mantissa

/-- The mantissa that a quotient is rounded to. It can be the next power of 2, which is no mantissa. -/
def rounded (num den : Nat) : Nat :=
  roundQuotient (scaled num den (exponentOf num den)).1 (scaled num den (exponentOf num den)).2

/-- What a quotient is rounded to, were there no largest double. -/
def nearest (num den : Nat) : ℚ :=
  rounded num den * 2 ^ exponentOf num den

/-- A number that is nearer to the double than to the next one, or smaller. In the middle an even mantissa counts. -/
def Below (x : ℚ) (mantissa : Nat) (exponent : Int) : Prop :=
  x < (mantissa + 1 / 2) * 2 ^ exponent ∨ x = (mantissa + 1 / 2) * 2 ^ exponent ∧ mantissa % 2 = 0

theorem cast_leastNormal : ((leastNormal : Nat) : ℚ) = 2 ^ (52 : Int) := by
  norm_num [leastNormal]

theorem cast_two_leastNormal : ((2 * leastNormal : Nat) : ℚ) = 2 ^ (53 : Int) := by
  norm_num [leastNormal]

theorem below_of_lt {x : ℚ} (h : x < mantissa * 2 ^ exponent) : Below x mantissa exponent := by
  have hpow : (0 : ℚ) < 2 ^ exponent := by positivity
  left
  linarith

theorem Below.lt {x : ℚ} (h : Below x mantissa exponent) : x < ((mantissa + 1 : Nat) : ℚ) * 2 ^ exponent := by
  have hpow : (0 : ℚ) < 2 ^ exponent := by positivity
  push_cast
  rcases h with hlt | ⟨heq, _⟩ <;> linarith

/-- At each exponent the mantissa that a quotient is rounded to is told by the middles between mantissas. -/
theorem roundQuotient_scaled_le_iff (hden : 0 < den) (num : Nat) (exponent : Int) (m : Nat)
    : roundQuotient (scaled num den exponent).1 (scaled num den exponent).2 ≤ m
        ↔
      Below (num / den) m exponent := by
  have hpow : (0 : ℚ) < 2 ^ exponent := by positivity
  have hscaled := scaled_pos hden num exponent
  have hpos : (0 : ℚ) < (scaled num den exponent).2 := Nat.cast_pos.mpr hscaled
  have hdiv := scaled_div num den exponent
  rw [roundQuotient_le_iff hscaled]
  unfold Below
  rw [← div_lt_iff₀ hpow, ← div_eq_iff hpow.ne', ← hdiv, div_lt_iff₀ hpos, div_eq_iff hpos.ne']
  generalize (scaled num den exponent).1 = n
  generalize (scaled num den exponent).2 = d
  have hlt : 2 * n < (2 * m + 1) * d ↔ (n : ℚ) < (m + 1 / 2) * d := by
    rw [← Nat.cast_lt (α := ℚ)]
    push_cast
    constructor <;> intro h <;> linarith
  have heq : 2 * n = (2 * m + 1) * d ↔ (n : ℚ) = (m + 1 / 2) * d := by
    rw [← Nat.cast_inj (R := ℚ)]
    push_cast
    constructor <;> intro h <;> linarith
  rw [hlt, heq]

theorem nearest_zero (den : Nat) : nearest 0 den = 0 := by
  have hzero : ∀ d, roundQuotient 0 d = 0 := by
    intro d
    unfold roundQuotient
    rw [Nat.zero_div, Nat.zero_mod]
    dsimp only
    split
    . rfl
    . omega
  unfold nearest rounded scaled
  dsimp only
  rw [Nat.zero_mul, hzero, Nat.cast_zero, zero_mul]

theorem rounded_range (hnum : num ≠ 0) (hden : 0 < den)
    : rounded num den ≤ 2 * leastNormal ∧ (exponentOf num den = -1074 ∨ leastNormal ≤ rounded num den) := by
  have hbounds := exponentOf_bounds hnum hden
  unfold rounded
  constructor
  . rw [roundQuotient_scaled_le_iff hden]
    apply below_of_lt
    rw [cast_two_leastNormal, zpow_mul_zpow, add_comm]
    exact hbounds.1
  . rcases hbounds.2 with hleast | hnormal
    . exact .inl hleast
    . right
      apply Nat.le_of_pred_lt
      rw [← not_le, roundQuotient_scaled_le_iff hden]
      intro hbelow
      have hlt := hbelow.lt
      rw [Nat.pred_eq_sub_one, Nat.sub_add_cancel (by decide), cast_leastNormal, zpow_mul_zpow, add_comm] at hlt
      exact hlt.not_ge hnormal

/-- Rounding does not lead out of the numbers that have the same exponent, but for the next power of 2. -/
theorem nearest_range (hnum : num ≠ 0) (hden : 0 < den)
    : nearest num den ≤ 2 ^ (exponentOf num den + 53)
        ∧ (exponentOf num den = -1074 ∨ 2 ^ (exponentOf num den + 52) ≤ nearest num den) := by
  have hpow : (0 : ℚ) < 2 ^ exponentOf num den := by positivity
  have hrange := rounded_range hnum hden
  unfold nearest
  constructor
  . rw [add_comm, ← zpow_mul_zpow, mul_le_mul_iff_left₀ hpow, ← cast_two_leastNormal, Nat.cast_le]
    exact hrange.1
  . rw [add_comm, ← zpow_mul_zpow, mul_le_mul_iff_left₀ hpow, ← cast_leastNormal, Nat.cast_le]
    exact hrange.2

/-- A quotient is rounded to at most a double if and only if it is not beyond the middle behind that double. -/
theorem nearest_le_iff (hdouble : IsDouble mantissa exponent) (hden : 0 < den) (num : Nat)
    : nearest num den ≤ mantissa * 2 ^ exponent ↔ Below (num / den) mantissa exponent := by
  have hpow : (0 : ℚ) < 2 ^ exponent := by positivity
  by_cases hnum : num = 0
  . rw [hnum, nearest_zero, Nat.cast_zero, zero_div]
    apply iff_of_true
    . positivity
    . left
      positivity
  . have hbounds := exponentOf_bounds hnum hden
    have hrange := nearest_range hnum hden
    have hlow := le_exponentOf num den
    rcases Int.lt_trichotomy (exponentOf num den) exponent with hlt | heq | hgt
    . -- All numbers with the exponent of the quotient are smaller than the double, which has a larger one.
      have hnormal : (2 : ℚ) ^ (exponentOf num den + 53) ≤ mantissa * 2 ^ exponent := by
        have hle : ((leastNormal : Nat) : ℚ) ≤ mantissa := by
          rw [Nat.cast_le]
          exact hdouble.normal.resolve_left (by omega)
        calc (2 : ℚ) ^ (exponentOf num den + 53)
          _ ≤ 2 ^ (52 + exponent) := zpow_le_zpow (by omega)
          _ = (leastNormal : Nat) * 2 ^ exponent := by rw [cast_leastNormal, zpow_mul_zpow]
          _ ≤ mantissa * 2 ^ exponent := mul_le_mul_of_nonneg_right hle hpow.le
      apply iff_of_true
      . exact hrange.1.trans hnormal
      . exact below_of_lt (hbounds.1.trans_le hnormal)
    . rw [← roundQuotient_scaled_le_iff hden, ← heq]
      unfold nearest rounded
      rw [mul_le_mul_iff_left₀ (by positivity), Nat.cast_le]
    . -- The double is smaller than all numbers with the exponent of the quotient.
      have hlarge : ((mantissa + 1 : Nat) : ℚ) * 2 ^ exponent ≤ 2 ^ (exponentOf num den + 52) := by
        have hle : ((mantissa + 1 : Nat) : ℚ) ≤ (2 * leastNormal : Nat) := by
          rw [Nat.cast_le]
          exact hdouble.lt
        calc ((mantissa + 1 : Nat) : ℚ) * 2 ^ exponent
          _ ≤ (2 * leastNormal : Nat) * 2 ^ exponent := mul_le_mul_of_nonneg_right hle hpow.le
          _ = 2 ^ (53 + exponent) := by rw [cast_two_leastNormal, zpow_mul_zpow]
          _ ≤ 2 ^ (exponentOf num den + 52) := zpow_le_zpow (by omega)
      have hleast : exponentOf num den ≠ -1074 := by
        have := hdouble.low
        omega
      apply iff_of_false
      . have hge := hrange.2.resolve_left hleast
        push_cast at hlarge
        linarith
      . intro hbelow
        exact (hbelow.lt.trans_le hlarge).not_ge (hbounds.2.resolve_left hleast)

end Nearest

section Doubles

theorem ofQuotient?_cases (hden : 0 < den) (num : Nat) (negative : Bool)
    : (∃ mantissa exponent, ofQuotient? negative num den = some (.finite negative mantissa exponent)
          ∧ IsDouble mantissa exponent ∧ nearest num den = mantissa * 2 ^ exponent)
        ∨ ofQuotient? negative num den = none ∧ 2 ^ (1024 : Int) ≤ nearest num den := by
  by_cases hnum : num = 0
  . left
    refine ⟨0, -1074, ?_, ⟨by decide, by decide, by decide, .inl rfl⟩, ?_⟩
    . unfold ofQuotient?
      rw [if_pos hnum]
    . rw [hnum, nearest_zero, Nat.cast_zero, zero_mul]
  . have hrange := rounded_range hnum hden
    have hlarge := (nearest_range hnum hden).2
    have hlow := le_exponentOf num den
    have hquotient : ofQuotient? negative num den
        = if rounded num den = 2 * leastNormal then
            if exponentOf num den + 1 ≤ 971 then some (.finite negative leastNormal (exponentOf num den + 1)) else none
          else
            if exponentOf num den ≤ 971 then some (.finite negative (rounded num den) (exponentOf num den))
            else none := by
      unfold ofQuotient? rounded
      rw [if_neg hnum]
      dsimp only
      split <;> rfl
    rw [hquotient]
    split
    . next hcarry =>
      have hvalue : nearest num den = (leastNormal : Nat) * 2 ^ (exponentOf num den + 1) := by
        unfold nearest
        rw [hcarry, Nat.cast_mul, zpow_add_one₀ two_ne_zero]
        push_cast
        ring
      split
      . next hhigh => exact .inl ⟨_, _, rfl, ⟨by decide, by omega, hhigh, .inr (Nat.le_refl _)⟩, hvalue⟩
      . next hhigh =>
        rw [hvalue, cast_leastNormal, zpow_mul_zpow]
        exact .inr ⟨rfl, zpow_le_zpow (by omega)⟩
    . next hcarry =>
      split
      . next hhigh => exact .inl ⟨_, _, rfl, ⟨by omega, hlow, hhigh, hrange.2⟩, rfl⟩
      . next hhigh =>
        refine .inr ⟨rfl, ?_⟩
        exact (zpow_le_zpow (by omega)).trans (hlarge.resolve_left (by omega))

theorem isDouble_largest : IsDouble (2 * leastNormal - 1) 971 :=
  ⟨by decide, by decide, by decide, .inr (by decide)⟩

theorem IsDouble.le_largest (h : IsDouble mantissa exponent)
    : (mantissa : ℚ) * 2 ^ exponent ≤ (2 * leastNormal - 1 : Nat) * 2 ^ (971 : Int) := by
  have hlt := h.lt
  apply mul_le_mul
  . rw [Nat.cast_le]
    omega
  . exact zpow_le_zpow h.high
  . positivity
  . positivity

/-- Behind an odd mantissa the middle itself is rounded up. -/
theorem below_odd_iff {x : ℚ} (hodd : mantissa % 2 = 1)
    : Below x mantissa exponent ↔ x < (mantissa + 1 / 2) * 2 ^ exponent := by
  unfold Below
  simp [hodd]

/-- The middle between the largest double and the next power of 2. -/
theorem largest_middle
    : ((2 * leastNormal - 1 : Nat) + 1 / 2 : ℚ) * 2 ^ (971 : Int) = 2 ^ (1024 : Int) - 2 ^ (970 : Int) := by
  have hexponent : (2 : ℚ) ^ (971 : Int) = 2 ^ (1 : Int) * 2 ^ (970 : Int) := (zpow_mul_zpow 1 970).symm
  have hbeyond : (2 : ℚ) ^ (1024 : Int) = 2 ^ (54 : Int) * 2 ^ (970 : Int) := (zpow_mul_zpow 54 970).symm
  rw [hexponent, hbeyond]
  generalize (2 : ℚ) ^ (970 : Int) = power
  norm_num [leastNormal]
  ring

theorem largest_lt : ((2 * leastNormal - 1 : Nat) : ℚ) * 2 ^ (971 : Int) < 2 ^ (1024 : Int) := by
  have hbeyond : (2 : ℚ) ^ (1024 : Int) = (2 * leastNormal : Nat) * 2 ^ (971 : Int) := by
    rw [cast_two_leastNormal, zpow_mul_zpow]
    rfl
  rw [hbeyond]
  apply mul_lt_mul_of_pos_right
  . rw [Nat.cast_lt]
    decide
  . positivity

theorem ofQuotient?_eq_none_iff (hden : 0 < den) (num : Nat) (negative : Bool)
    : ofQuotient? negative num den = none ↔ (2 : ℚ) ^ (1024 : Int) - 2 ^ (970 : Int) ≤ num / den := by
  have hlargest := nearest_le_iff isDouble_largest hden num
  rw [below_odd_iff (by decide), largest_middle] at hlargest
  rw [← not_lt, ← hlargest]
  rcases ofQuotient?_cases hden num negative with ⟨m, e, hsome, hdouble, hnearest⟩ | ⟨hnone, hnearest⟩
  . rw [hsome, hnearest]
    exact iff_of_false (by simp) (not_not.mpr hdouble.le_largest)
  . exact iff_of_true hnone (not_le.mpr (largest_lt.trans_le hnearest))

theorem absLe_finite_iff (negative : Bool) (mantissa : Nat) (exponent : Int) (hden : 0 < den) (num : Nat)
    : (finite negative mantissa exponent).absLe num den = true ↔ (mantissa : ℚ) * 2 ^ exponent ≤ num / den := by
  have hpos : (0 : ℚ) < den := Nat.cast_pos.mpr hden
  have hpow : (0 : ℚ) < (Nat.pow 2 (-exponent).toNat : Nat) := Nat.cast_pos.mpr (Nat.pow_pos (by decide))
  unfold absLe
  dsimp only
  rw [decide_eq_true_iff, ← Nat.cast_le (α := ℚ), zpow_eq, mul_div_assoc', div_le_div_iff₀ hpow hpos]
  push_cast
  rfl

end Doubles

end Binary64

end Mustache
