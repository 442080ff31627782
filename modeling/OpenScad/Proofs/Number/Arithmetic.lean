/-
# Arithmetic on whole numbers

A product of two whole numbers is rounded once, and so is a quotient that is
whole. A quotient of a number of 53 bits that is not whole does not become whole
by rounding (`Binary64.IsWhole.toInt?_div_of_not_dvd`). The powers of ten up to
the 22nd have 53 bits and are therefore what they are called.

Key definitions: `Binary64.IsWhole`.
Key theorems: `Binary64.IsWhole.mul`, `Binary64.IsWhole.div`,
`Binary64.IsWhole.toInt?_div_of_not_dvd`, `Json.isWhole_powerOfTen`.
-/
import OpenScad.Json.Quantity
import OpenScad.Proofs.Number.Rounding

namespace OpenScad
namespace Binary64

/-- The number is this whole one, without a minus sign. -/
def IsWhole (x : Binary64) (k : Nat) : Prop :=
  ∃ e f, x = .finite false e f ∧ units e f = k * 2 ^ unitPower

variable {x y : Binary64} {a b : Nat}

theorem IsWhole.toInt? (h : x.IsWhole a) : x.toInt? = some (a : Int) := by
  obtain ⟨e, f, rfl, hunits⟩ := h
  exact toInt?_of_units false hunits

theorem isWhole_nearest {k den : Nat} (hden : 0 < den) (hlog : Nat.log2 k < 1023) :
    (nearest false (k * den) den).IsWhole (rounded k) := exists_nearest_whole hden hlog false

theorem isWhole_ofInt (h : a < 2 ^ 53) : (ofInt a).IsWhole a := by
  have hlog : Nat.log2 a < 53 := log2_lt_of_lt (by decide) h
  have hwhole := isWhole_nearest (k := a) Nat.one_pos (by omega)
  rw [Nat.mul_one, rounded_of_lt h] at hwhole
  have hsign : decide ((a : Int) < 0) = false := by simp
  rw [ofInt, hsign]
  exact hwhole

/-- A product is rounded once. -/
theorem IsWhole.mul (hx : x.IsWhole a) (hy : y.IsWhole b) (hlog : Nat.log2 (a * b) < 1023) :
    (x.mul y).IsWhole (rounded (a * b)) := by
  obtain ⟨e, f, rfl, hunits⟩ := hx
  obtain ⟨e', f', rfl, hunits'⟩ := hy
  have hden : 0 < (ratio e f).2 * (ratio e' f').2 :=
    Nat.mul_pos (Nat.pow_pos (by decide)) (Nat.pow_pos (by decide))
  have hproduct : (ratio e f).1 * (ratio e' f').1 = a * b * ((ratio e f).2 * (ratio e' f').2) := by
    rw [units_eq_iff_ratio.mp hunits, units_eq_iff_ratio.mp hunits']
    ring
  have hmul : mul (.finite false e f) (.finite false e' f') =
      nearest false ((ratio e f).1 * (ratio e' f').1) ((ratio e f).2 * (ratio e' f').2) := rfl
  rw [hmul, hproduct]
  exact isWhole_nearest hden hlog

/-- A quotient is the number nearest to the quotient of the whole numbers. -/
theorem IsWhole.exists_div (hx : x.IsWhole a) (hy : y.IsWhole b) (hb : 0 < b) :
    ∃ c, 0 < c ∧ x.div y = nearest false (a * c) (b * c) := by
  obtain ⟨e, f, rfl, hunits⟩ := hx
  obtain ⟨e', f', rfl, hunits'⟩ := hy
  have hsignificand : significand e' f' ≠ 0 := by
    intro hzero
    rw [units, hzero, Nat.zero_mul] at hunits'
    exact absurd hunits'.symm (Nat.ne_of_gt (Nat.mul_pos hb (Nat.pow_pos (by decide))))
  have hdiv : div (.finite false e f) (.finite false e' f') =
      nearest false ((ratio e f).1 * (ratio e' f').2) ((ratio e f).2 * (ratio e' f').1) := by
    rw [div, if_neg hsignificand]
    rfl
  refine ⟨(ratio e f).2 * (ratio e' f').2,
    Nat.mul_pos (Nat.pow_pos (by decide)) (Nat.pow_pos (by decide)), ?_⟩
  rw [hdiv, units_eq_iff_ratio.mp hunits, units_eq_iff_ratio.mp hunits', Nat.mul_assoc,
    Nat.mul_left_comm (ratio e f).2]

/-- A quotient that is whole is rounded once. -/
theorem IsWhole.div (hx : x.IsWhole (a * b)) (hy : y.IsWhole b) (hb : 0 < b)
    (hlog : Nat.log2 a < 1023) : (x.div y).IsWhole (rounded a) := by
  obtain ⟨c, hc, hdiv⟩ := hx.exists_div hy hb
  rw [hdiv, Nat.mul_assoc]
  exact isWhole_nearest (Nat.mul_pos hb hc) hlog

/-- **A quotient that is not whole stays so**, if the numbers are not too large. -/
theorem IsWhole.toInt?_div_of_not_dvd (hx : x.IsWhole a) (hy : y.IsWhole b) (hb : 0 < b)
    (ha : a < 2 ^ 53) (hlow : 2 ^ 53 * b ≤ 2 ^ unitPower) (hdvd : ¬ b ∣ a) :
    (x.div y).toInt? = none := by
  obtain ⟨c, hc, hdiv⟩ := hx.exists_div hy hb
  rw [hdiv]
  exact toInt?_nearest_of_not_dvd hb hdvd ha hlow hc false

theorem toInt?_neg (x : Binary64) : x.neg.toInt? = x.toInt?.map (- ·) := by
  cases x with
  | nan => rfl
  | infinite => rfl
  | finite negative e f =>
    simp only [neg, toInt?]
    split
    · cases negative <;> simp
    · rfl

end Binary64

namespace Json

/-- **The powers of ten up to the 22nd are exact.** -/
theorem isWhole_powerOfTen {n : Nat} (h : n ≤ 22) : (powerOfTen n).IsWhole (10 ^ n) := by
  have hexact : ∀ k < 23, Binary64.rounded (10 ^ k) = 10 ^ k ∧ Nat.log2 (10 ^ k) < 1023 := by
    decide +kernel
  obtain ⟨hrounded, hlog⟩ := hexact n (by omega)
  have hwhole := Binary64.isWhole_nearest Nat.one_pos hlog
  rw [Nat.mul_one, hrounded] at hwhole
  have hpower : powerOfTen n = .nearest false (10 ^ n) 1 := by
    have hfar : ¬ 400 < (n : Int) := by omega
    have hnear : ¬ (n : Int) + Nat.log2 1 + 1 < -400 := by omega
    have hnonnegative : (-(n : Int)).toNat = 0 := by omega
    simp only [powerOfTen, Binary64.ofDecimal, hfar, hnear, hnonnegative]
    simp
  rw [hpower]
  exact hwhole

end Json
end OpenScad
