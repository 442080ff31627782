/-
# The search for the shortest decimal ends

Every positive finite number has a decimal that reads back as it on one of the
grids that are searched, so that the search never runs out of grids
(`Binary64.shortest_contains`). It is a positive decimal.

A grid has a point in the interval of a number when its step is below the
distance from the number to the upper end of its interval. The last grid of a
search is that fine: there a step is below half a unit of the last place. The
powers of ten and of two are compared by `10 ^ 3 ≤ 2 ^ 10` and
`2 ^ 93 ≤ 10 ^ 28`, which is close enough over the whole range of exponents.

Key definitions: `Interval.Contains`.
Key theorems: `Interval.exists_pick?`, `Interval.search_contains`,
`Binary64.step_lt`, `Binary64.shortest_contains`, `Binary64.shortest_pos`.
-/
import Mathlib.Tactic.Ring
import OpenScad.Number.Shortest
import OpenScad.Proofs.Number.Whole

namespace OpenScad

/-! ### Grids -/

namespace Interval

variable {i : Interval} {tie : Tie} {power : Int} {c : Nat}

/-- The decimal lies in the interval. -/
def Contains (i : Interval) (d : Decimal) : Prop :=
  i.holds (10 ^ (-d.exponent).toNat) (i.den * 10 ^ d.exponent.toNat) d.coefficient = true

/-- What is picked on a grid lies in the interval. -/
theorem contains_of_pick? (h : i.pick? tie power = some c) :
    i.Contains { coefficient := c, exponent := power } := by
  unfold pick? at h
  simp only at h
  unfold Contains
  split at h
  · rename_i hbelow habove
    cases h
    unfold nearer
    split
    · exact hbelow
    · split
      · exact habove
      · cases tie
        · exact habove
        · simp only
          split
          · exact hbelow
          · exact habove
  · rename_i hbelow _
    cases h
    exact hbelow
  · rename_i _ habove
    cases h
    exact habove
  · cases h

/-- A grid whose step is below the distance to the upper end has a point in the interval. -/
theorem exists_pick? (hlow : i.low ≤ i.value) (hden : 0 < i.den)
    (hstep : i.value * 10 ^ (-power).toNat + i.den * 10 ^ power.toNat <
      i.high * 10 ^ (-power).toNat) : ∃ c, i.pick? tie power = some c := by
  have hpos : 0 < i.den * 10 ^ power.toNat := Nat.mul_pos hden (Nat.pow_pos (by decide))
  have habove : i.holds (10 ^ (-power).toNat) (i.den * 10 ^ power.toNat)
      (i.value * 10 ^ (-power).toNat / (i.den * 10 ^ power.toNat) + 1) = true := by
    -- the upper neighbour lies above the value, and less than a step above it
    have hbelow := Nat.lt_div_mul_add (a := i.value * 10 ^ (-power).toNat) hpos
    have hle := Nat.div_mul_le_self (i.value * 10 ^ (-power).toNat) (i.den * 10 ^ power.toNat)
    have hlow' : i.low * 10 ^ (-power).toNat ≤ i.value * 10 ^ (-power).toNat :=
      Nat.mul_le_mul_right _ hlow
    simp only [holds, Nat.add_mul, Nat.one_mul]
    split <;> simp only [Bool.and_eq_true, decide_eq_true_eq] <;> omega
  unfold pick?
  simp only
  split
  · exact ⟨_, rfl⟩
  · exact ⟨_, rfl⟩
  · exact ⟨_, rfl⟩
  · rename_i _ houtside
    exact absurd (habove.symm.trans houtside) Bool.noConfusion

/-- If some grid that is searched has a point in the interval, the search ends with one. -/
theorem search_contains : ∀ (n : Nat) (power : Int),
    (∃ k < n, ∃ c, i.pick? tie (power - k) = some c) → i.Contains (i.search tie n power)
  | 0, _, ⟨_, hk, _⟩ => absurd hk (Nat.not_lt_zero _)
  | n + 1, power, ⟨k, hk, c, hc⟩ => by
    rw [search]
    cases hpick : i.pick? tie power with
    | some found => exact contains_of_pick? hpick
    | none =>
      cases k with
      | zero =>
        rw [Int.natCast_zero, Int.sub_zero, hpick] at hc
        cases hc
      | succ k =>
        refine search_contains n (power - 1) ⟨k, Nat.lt_of_succ_lt_succ hk, c, ?_⟩
        rwa [show power - 1 - (k : Int) = power - (k + 1 : Nat) by omega]

/-- What lies in an interval of positive reals is positive. -/
theorem Contains.pos {d : Decimal} (h : i.Contains d) (hlow : 0 < i.low) : 0 < d.coefficient := by
  have hpos : 0 < i.low * 10 ^ (-d.exponent).toNat :=
    Nat.mul_pos hlow (Nat.pow_pos (by decide))
  refine Nat.pos_of_ne_zero fun hzero => ?_
  simp only [Contains, holds, hzero, Nat.zero_mul] at h
  split at h <;> simp only [Bool.and_eq_true, decide_eq_true_eq] at h <;> omega

end Interval

/-! ### The last grid of a search -/

namespace Binary64

/-- A step of a grid far enough down is below half a unit of the last place. -/
theorem step_lt {m : Nat} {p : Int} (hm : m ≤ 2046)
    (hp : 100000 * p ≤ 30103 * m - 32535163) :
    2 ^ (1077 - m) * 10 ^ p.toNat < 2 * 2 ^ (m - 1077) * 10 ^ (-p).toNat := by
  rcases Int.le_total 0 p with hpos | hneg
  · -- large numbers: `10 ^ p` against `2 ^ (m - 1076)`, by `10 ^ 3 ≤ 2 ^ 10`
    obtain ⟨q, rfl⟩ := Int.eq_ofNat_of_zero_le hpos
    have hpow : 10 ^ q < 2 ^ (m - 1076) := by
      refine (Nat.pow_lt_pow_iff_left (n := 3) (by decide)).mp ?_
      calc (10 ^ q) ^ 3 = (10 ^ 3) ^ q := by rw [← Nat.pow_mul, ← Nat.pow_mul, Nat.mul_comm]
        _ ≤ (2 ^ 10) ^ q := Nat.pow_le_pow_left (by decide) q
        _ = 2 ^ (10 * q) := (Nat.pow_mul ..).symm
        _ < 2 ^ ((m - 1076) * 3) := Nat.pow_lt_pow_right (by decide) (by omega)
        _ = (2 ^ (m - 1076)) ^ 3 := Nat.pow_mul ..
    have hzero : 1077 - m = 0 := by omega
    have hsucc : m - 1076 = m - 1077 + 1 := by omega
    rw [hsucc, Nat.pow_succ, Nat.mul_comm] at hpow
    simpa [hzero] using hpow
  · -- small numbers: `2 ^ (1076 - m)` against `10 ^ (-p)`, by `2 ^ 93 ≤ 10 ^ 28`
    obtain ⟨q, hq⟩ := Int.eq_ofNat_of_zero_le (Int.neg_nonneg_of_nonpos hneg)
    have hpow : 2 ^ (1077 - m) < 2 * 10 ^ q := by
      refine (Nat.pow_lt_pow_iff_left (n := 28) (by decide)).mp ?_
      calc (2 ^ (1077 - m)) ^ 28 = 2 ^ ((1077 - m) * 28) := (Nat.pow_mul ..).symm
        _ < 2 ^ (28 + 93 * q) := Nat.pow_lt_pow_right (by decide) (by omega)
        _ = 2 ^ 28 * (2 ^ 93) ^ q := by rw [Nat.pow_add, Nat.pow_mul]
        _ ≤ 2 ^ 28 * (10 ^ 28) ^ q :=
            Nat.mul_le_mul_left _ (Nat.pow_le_pow_left (by decide) q)
        _ = (2 * 10 ^ q) ^ 28 := by
            rw [Nat.mul_pow, ← Nat.pow_mul, ← Nat.pow_mul, Nat.mul_comm 28 q]
    have hzero : p.toNat = 0 := by omega
    have hpos : 0 < 2 ^ (m - 1077) := Nat.pow_pos (by decide)
    rw [hq, hzero, Nat.pow_zero, Nat.mul_one]
    calc 2 ^ (1077 - m) < 2 * 10 ^ q := hpow
      _ ≤ 2 * 10 ^ q * 2 ^ (m - 1077) := Nat.le_mul_of_pos_right _ hpos
      _ = 2 * 2 ^ (m - 1077) * 10 ^ q := by ring

/-! ### The interval of a number -/

variable {e : Fin 2047} {f : Fin (Nat.pow 2 52)}

theorem log2_significand_le (h : significand e f ≠ 0) : Nat.log2 (significand e f) ≤ 52 :=
  Nat.le_of_lt_succ ((Nat.log2_lt h).mpr (significand_lt e f))

theorem interval_low_pos (h : significand e f ≠ 0) : 0 < (interval e f).low := by
  unfold interval
  refine Nat.mul_pos ?_ (Nat.pow_pos (by decide))
  split <;> omega

theorem interval_low_le (e : Fin 2047) (f : Fin (Nat.pow 2 52)) :
    (interval e f).low ≤ (interval e f).value :=
  Nat.mul_le_mul_right _ (Nat.sub_le _ _)

theorem interval_den_pos (e : Fin 2047) (f : Fin (Nat.pow 2 52)) : 0 < (interval e f).den :=
  Nat.pow_pos (by decide)

/-- The last of the grids that are searched has a point in the interval. -/
theorem exists_pick?_last (tie : Tie) (h : significand e f ≠ 0) :
    ∃ c, (interval e f).pick? tie (above e f - (19 : Nat)) = some c := by
  refine Interval.exists_pick? (interval_low_le e f) (interval_den_pos e f) ?_
  have hlog := log2_significand_le h
  have hscale : scale e = (max e.val 1 : Nat) - 1075 := rfl
  have hmax : max e.val 1 ≤ 2046 := by
    have := e.isLt
    omega
  have hstep : 2 ^ (1077 - max e.val 1) * 10 ^ (above e f - (19 : Nat)).toNat <
      2 * 2 ^ (max e.val 1 - 1077) * 10 ^ (-(above e f - (19 : Nat))).toNat := by
    refine step_lt hmax ?_
    unfold above
    omega
  have hden : (interval e f).den = 2 ^ (1077 - max e.val 1) := by
    have hunit : (-(scale e - 2)).toNat = 1077 - max e.val 1 := by omega
    exact congrArg (2 ^ ·) hunit
  have hhigh : (interval e f).high = (interval e f).value + 2 * 2 ^ (max e.val 1 - 1077) := by
    have hunit : (scale e - 2).toNat = max e.val 1 - 1077 := by omega
    have hsum : (interval e f).high = (interval e f).value + 2 * 2 ^ (scale e - 2).toNat :=
      Nat.add_mul ..
    rw [hsum, hunit]
  rw [hden, hhigh, Nat.add_mul]
  exact Nat.add_lt_add_left hstep _

/-- **The shortest decimal of a positive number reads back as it**: it lies in the interval of
the reals that round to the number. -/
theorem shortest_contains (tie : Tie) (h : significand e f ≠ 0) :
    (interval e f).Contains (shortest tie e f) := by
  rw [shortest, if_neg h]
  exact Interval.search_contains searchLimit _ ⟨19, by decide, exists_pick?_last tie h⟩

theorem shortest_pos (tie : Tie) (h : significand e f ≠ 0) :
    0 < (shortest tie e f).coefficient :=
  (shortest_contains tie h).pos (interval_low_pos h)

end Binary64
end OpenScad
