/-
# Numbers that are whole

Two numbers that are the same whole number are the same number, up to the sign
of a zero (`Binary64.same_of_toInt?`). Counted in the smallest unit that a
significand may have, finite numbers with greater exponents are greater, so a
magnitude has one exponent and one fraction only.

Key definitions: `Binary64.unitPower`, `Binary64.units`.
Key theorems: `Binary64.units_lt_units`, `Binary64.units_inj`, `Binary64.units_eq_iff_ratio`,
`Binary64.same_of_toInt?`.
-/
import Mathlib.Tactic.Ring
import OpenScad.Number.Binary64

namespace OpenScad
namespace Binary64

variable {e e' : Fin 2047} {f f' : Fin (Nat.pow 2 52)}

/-- The power of two by which the unit of all magnitudes is divided. -/
def unitPower : Nat := 1075

/-- The magnitude of a finite number, counted in units of `2 ^ (-unitPower)`. -/
def units (e : Fin 2047) (f : Fin (Nat.pow 2 52)) : Nat := significand e f * 2 ^ max e.val 1

theorem fraction_lt (f : Fin (Nat.pow 2 52)) : f.val < 2 ^ 52 := f.isLt

theorem significand_lt (e : Fin 2047) (f : Fin (Nat.pow 2 52)) : significand e f < 2 ^ 53 := by
  have hf := fraction_lt f
  unfold significand
  split <;> simp only [Nat.pow_eq] <;> omega

theorem le_significand (h : e.val ≠ 0) : 2 ^ 52 ≤ significand e f := by
  rw [significand, if_neg h]
  exact Nat.le_add_right _ _

/-- A greater exponent makes a greater magnitude. -/
theorem units_lt_units (h : e.val < e'.val) : units e f < units e' f' := by
  have hle : 2 ^ 52 ≤ significand e' f' := le_significand (by omega)
  unfold units
  by_cases hone : e'.val = 1
  · -- the least two exponents have the same unit, but only the second has the hidden bit
    have hzero : e.val = 0 := by omega
    have hlt : significand e f < 2 ^ 52 := by
      rw [significand, if_pos hzero]
      exact fraction_lt f
    rw [hzero, hone]
    exact Nat.mul_lt_mul_of_pos_right (Nat.lt_of_lt_of_le hlt hle) (by decide)
  · calc significand e f * 2 ^ max e.val 1
        < 2 ^ 53 * 2 ^ max e.val 1 :=
          Nat.mul_lt_mul_of_pos_right (significand_lt e f) (Nat.pow_pos (by decide))
      _ = 2 ^ 52 * 2 ^ (max e.val 1 + 1) := by ring
      _ ≤ 2 ^ 52 * 2 ^ max e'.val 1 :=
          Nat.mul_le_mul_left _ (Nat.pow_le_pow_right (by decide) (by omega))
      _ ≤ significand e' f' * 2 ^ max e'.val 1 := Nat.mul_le_mul_right _ hle

theorem units_inj (h : units e f = units e' f') : e = e' ∧ f = f' := by
  have he : e = e' := by
    rcases Nat.lt_trichotomy e.val e'.val with hlt | heq | hgt
    · exact absurd h (Nat.ne_of_lt (units_lt_units hlt))
    · exact Fin.ext heq
    · exact absurd h (Nat.ne_of_gt (units_lt_units hgt))
  subst he
  refine ⟨rfl, Fin.ext ?_⟩
  have hsig : significand e f = significand e f' :=
    Nat.eq_of_mul_eq_mul_right (Nat.pow_pos (by decide)) h
  unfold significand at hsig
  split at hsig <;> omega

/-- A magnitude is a multiple of the unit if and only if it is that whole number. -/
theorem units_eq_iff_ratio {k : Nat} :
    units e f = k * 2 ^ unitPower ↔ (ratio e f).1 = k * (ratio e f).2 := by
  have hscale : scale e = (max e.val 1 : Nat) - (unitPower : Nat) := rfl
  have hsplit : max e.val 1 = (scale e).toNat + min (max e.val 1) unitPower := by omega
  have hunit : unitPower = (-scale e).toNat + min (max e.val 1) unitPower := by omega
  have hleft : units e f = (ratio e f).1 * 2 ^ min (max e.val 1) unitPower := by
    calc units e f
        = significand e f * 2 ^ ((scale e).toNat + min (max e.val 1) unitPower) := by
          rw [← hsplit]
          rfl
      _ = (ratio e f).1 * 2 ^ min (max e.val 1) unitPower := by
          rw [Nat.pow_add, ← Nat.mul_assoc]
          rfl
  have hright : 2 ^ unitPower = (ratio e f).2 * 2 ^ min (max e.val 1) unitPower := by
    calc 2 ^ unitPower
        = 2 ^ ((-scale e).toNat + min (max e.val 1) unitPower) := by rw [← hunit]
      _ = (ratio e f).2 * 2 ^ min (max e.val 1) unitPower := Nat.pow_add ..
  have hpos : 0 < 2 ^ min (max e.val 1) unitPower := Nat.pow_pos (by decide)
  rw [hleft, hright, ← Nat.mul_assoc]
  exact Nat.mul_left_inj (Nat.ne_of_gt hpos)

/-- A number that is whole is finite, and its magnitude is a multiple of the unit. -/
theorem exists_of_toInt? {x : Binary64} {n : Int} (h : x.toInt? = some n) :
    ∃ (s : Bool) (e : Fin 2047) (f : Fin (Nat.pow 2 52)) (k : Nat), x = .finite s e f ∧
      units e f = k * 2 ^ unitPower ∧ n = if s then -(k : Int) else k := by
  cases x with
  | nan => cases h
  | infinite => cases h
  | finite s e f =>
    unfold toInt? at h
    simp only at h
    split at h
    · rename_i hdvd
      cases h
      refine ⟨s, e, f, (ratio e f).1 / (ratio e f).2, rfl, units_eq_iff_ratio.mpr ?_, rfl⟩
      exact (Nat.div_mul_cancel (Nat.dvd_of_mod_eq_zero hdvd)).symm
    · cases h

/-- **Numbers that are the same whole number are the same**, zeros of both signs too. -/
theorem same_of_toInt? {x y : Binary64} {n : Int} (hx : x.toInt? = some n)
    (hy : y.toInt? = some n) : x.same y = true := by
  obtain ⟨s, e, f, k, rfl, hunits, hn⟩ := exists_of_toInt? hx
  obtain ⟨s', e', f', k', rfl, hunits', hn'⟩ := exists_of_toInt? hy
  have hk : k = k' := by
    rw [hn] at hn'
    split at hn' <;> split at hn' <;> omega
  subst hk
  obtain ⟨rfl, rfl⟩ := units_inj (hunits.trans hunits'.symm)
  unfold same
  by_cases hs : s = s'
  · simp [hs]
  · have hzero : k = 0 := by
      rw [hn] at hn'
      cases s <;> cases s' <;> simp at hs hn' <;> omega
    have hsig : significand e f = 0 := by
      rw [hzero, Nat.zero_mul] at hunits
      exact (Nat.mul_eq_zero.mp hunits).resolve_right (Nat.ne_of_gt (Nat.pow_pos (by decide)))
    simp [isZero, hsig]

end Binary64
end OpenScad
