/-
# Numbers beyond the range

A quotient of `2 ^ 1024` or more becomes infinite, and one below half of the
least positive number becomes zero. The program settles decimals far outside the
range by their order of magnitude, without forming the power of ten. These two
laws say that it decides as the rounding would, so every decimal becomes the
number nearest to its quotient (`Binary64.ofDecimal_eq_nearest`).

Key theorems: `Binary64.nearest_of_large`, `Binary64.nearest_of_small`,
`Binary64.ofDecimal_eq_nearest`.
-/
import OpenScad.Proofs.Number.Rounding

namespace OpenScad
namespace Binary64

variable {num den : Nat}

/-! ### Above the range -/

/-- The power of two at which the range ends. -/
def rangePower : Nat := 1024

theorem ofFields_of_le {bits : Nat} (negative : Bool) (h : 2047 * 2 ^ 52 ≤ bits) :
    ofFields negative bits = .infinite negative := by
  have hfield : ¬ bits / Nat.pow 2 52 < 2047 := by
    rw [Nat.not_lt]
    exact (Nat.le_div_iff_mul_le (Nat.pow_pos (by decide))).mpr h
  rw [ofFields, dif_neg hfield]

/-- **A quotient of `2 ^ 1024` or more becomes infinite.** -/
theorem nearest_of_large (negative : Bool) (hden : 0 < den) (h : 2 ^ rangePower * den ≤ num) :
    nearest negative num den = .infinite negative := by
  have hpos : 0 < 2 ^ unitPower := Nat.pow_pos (by decide)
  have hmany : 2 ^ 53 * den ≤ num * 2 ^ unitPower := by
    calc 2 ^ 53 * den ≤ 2 ^ rangePower * den :=
          Nat.mul_le_mul_right _ (Nat.pow_le_pow_right (by decide) (by decide))
      _ ≤ num := h
      _ ≤ num * 2 ^ unitPower := Nat.le_mul_of_pos_right _ hpos
  obtain ⟨j, hplace⟩ := exists_isPlace hden hmany
  have hlt : 2 ^ (rangePower + unitPower) < 2 ^ (53 + j) := by
    refine Nat.lt_of_mul_lt_mul_right (a := den) ?_
    calc 2 ^ (rangePower + unitPower) * den = 2 ^ rangePower * den * 2 ^ unitPower := by
          rw [Nat.pow_add, Nat.mul_right_comm]
      _ ≤ num * 2 ^ unitPower := Nat.mul_le_mul_right _ h
      _ < 2 ^ 53 * (den * 2 ^ j) := hplace.high
      _ = 2 ^ (53 + j) * den := by rw [Nat.pow_add, Nat.mul_comm den, Nat.mul_assoc]
  have hj : rangePower + unitPower < 53 + j := (Nat.pow_lt_pow_iff_right (by decide)).mp hlt
  have hunit : unitPower = 1075 := rfl
  have hrange : rangePower = 1024 := rfl
  have hround : 2 ^ 52 ≤ roundHalfEven (num * 2 ^ unitPower) (den * 2 ^ j) :=
    le_roundHalfEven (Nat.mul_pos hden (Nat.pow_pos (by decide))) hplace.low
  rw [hplace.nearest_eq]
  exact ofFields_of_le negative (by omega)

/-! ### Below the range -/

theorem ofFields_zero (negative : Bool) : ofFields negative 0 = zero negative := rfl

/-- **A quotient below half of the least positive number becomes zero.** -/
theorem nearest_of_small (negative : Bool) (h : num * 2 ^ unitPower < den) :
    nearest negative num den = zero negative := by
  by_cases hnum : num = 0
  · rw [nearest, if_pos hnum]
  have hden : den ≠ 0 := by omega
  have hlog : Nat.log2 num + unitPower ≤ Nat.log2 den := by
    refine (Nat.le_log2 hden).mpr ?_
    calc 2 ^ (Nat.log2 num + unitPower) = 2 ^ Nat.log2 num * 2 ^ unitPower := Nat.pow_add ..
      _ ≤ num * 2 ^ unitPower := Nat.mul_le_mul_right _ (Nat.log2_self_le hnum)
      _ ≤ den := Nat.le_of_lt h
  have hunit : unitPower = 1075 := rfl
  have hhalf : 2 * (num * 2 ^ (unitPower - 1)) < den := by
    calc 2 * (num * 2 ^ (unitPower - 1)) = num * (2 ^ (unitPower - 1) * 2) := by ring
      _ = num * 2 ^ unitPower := by
          rw [← Nat.pow_succ, show (unitPower - 1).succ = unitPower from rfl]
      _ < den := h
  -- the logarithms are so far apart that the least place is guessed, and it is kept
  have hguess : max ((Nat.log2 num : Int) - Nat.log2 den - 53) leastPower = leastPower := by
    rw [leastPower]
    omega
  have hunits : inUnits num den leastPower = (num * 2 ^ (unitPower - 1), den) := by
    have hup : (-leastPower).toNat = unitPower - 1 := rfl
    have hdown : leastPower.toNat = 0 := rfl
    rw [inUnits, hup, hdown, Nat.pow_eq, Nat.pow_eq, Nat.pow_zero, Nat.mul_one]
  have hplace : lastPlace num den = leastPower := by
    have hnot : ¬ Nat.pow 2 53 * den ≤ num * 2 ^ (unitPower - 1) := by
      have hle : den ≤ Nat.pow 2 53 * den := Nat.le_mul_of_pos_left _ (Nat.pow_pos (by decide))
      omega
    simp only [lastPlace, hguess, hunits, if_neg hnot]
  have hround : roundHalfEven (num * 2 ^ (unitPower - 1)) den = 0 := by
    have hlt : num * 2 ^ (unitPower - 1) < den := by omega
    simp only [roundHalfEven, Nat.div_eq_of_lt hlt, Nat.mod_eq_of_lt hlt, if_pos hhalf]
  simp only [nearest, if_neg hnum, hplace, hunits, hround, Int.sub_self, Int.toNat_zero,
    Nat.zero_mul, Nat.add_zero, ofFields_zero]

/-! ### Decimals -/

theorem pow_two_mul_three_le (k : Nat) : 2 ^ (3 * k) ≤ 10 ^ k := by
  rw [Nat.pow_mul]
  exact Nat.pow_le_pow_left (by decide) k

/-- **Every decimal becomes the number nearest to it.** -/
theorem ofDecimal_eq_nearest (negative : Bool) (d : Decimal) :
    ofDecimal negative d = nearest negative (d.coefficient * 10 ^ d.exponent.toNat)
      (10 ^ (-d.exponent).toNat) := by
  unfold ofDecimal
  by_cases hzero : d.coefficient = 0
  · rw [if_pos hzero, hzero, Nat.zero_mul, nearest, if_pos rfl]
  by_cases hlarge : 400 < d.exponent
  · rw [if_neg hzero, if_pos hlarge]
    have hden : (-d.exponent).toNat = 0 := by omega
    have hrange : rangePower = 1024 := rfl
    have hnum : 2 ^ rangePower * 1 ≤ d.coefficient * 10 ^ d.exponent.toNat := by
      calc 2 ^ rangePower * 1 ≤ 2 ^ (3 * d.exponent.toNat) := by
            rw [Nat.mul_one]
            exact Nat.pow_le_pow_right (by decide) (by omega)
        _ ≤ 10 ^ d.exponent.toNat := pow_two_mul_three_le _
        _ ≤ d.coefficient * 10 ^ d.exponent.toNat :=
            Nat.le_mul_of_pos_left _ (Nat.pos_of_ne_zero hzero)
    rw [hden, Nat.pow_zero]
    exact (nearest_of_large negative Nat.one_pos hnum).symm
  by_cases hsmall : d.exponent + Nat.log2 d.coefficient + 1 < -400
  · rw [if_neg hzero, if_neg hlarge, if_pos hsmall]
    have hnum : d.exponent.toNat = 0 := by omega
    have hunit : unitPower = 1075 := rfl
    have hden : d.coefficient * 2 ^ unitPower < 10 ^ (-d.exponent).toNat := by
      calc d.coefficient * 2 ^ unitPower
          < 2 ^ (Nat.log2 d.coefficient + 1) * 2 ^ unitPower :=
            Nat.mul_lt_mul_of_pos_right Nat.lt_log2_self (Nat.pow_pos (by decide))
        _ = 2 ^ (Nat.log2 d.coefficient + 1 + unitPower) := (Nat.pow_add ..).symm
        _ ≤ 2 ^ (3 * (-d.exponent).toNat) := Nat.pow_le_pow_right (by decide) (by omega)
        _ ≤ 10 ^ (-d.exponent).toNat := pow_two_mul_three_le _
    rw [hnum, Nat.pow_zero, Nat.mul_one]
    exact (nearest_of_small negative hden).symm
  · rw [if_neg hzero, if_neg hlarge, if_neg hsmall]
    rfl

end Binary64
end OpenScad
