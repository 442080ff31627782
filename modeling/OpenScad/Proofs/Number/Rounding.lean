/-
# Rounding to 53 bits

The number nearest to a quotient is the quotient rounded at its last place: to
the nearest multiple of the unit that leaves 53 bits, and from halfway to the
even one (`Binary64.IsPlace.exists_nearest`). The program guesses the place from
two logarithms and corrects it by one comparison; the place is determined by the
53 bits alone (`Binary64.IsPlace.lastPlace_eq`). If the rounding reaches the
next power of two, the exponent grows by one and the fraction is zero, which the
sum of the two fields does by itself.

A quotient that is a whole number becomes the rounded one. A number stays as it
is if and only if it is a multiple of the unit of its last place, as all numbers
up to `2 ^ 53` are. Among the words of 64 bits the greatest is special: it is
rounded up, out of the range, and what is beyond the range is cut to the
greatest word.

Key definitions: `Binary64.lastUnit`, `Binary64.rounded`, `Binary64.IsPlace`.
Key theorems: `Binary64.rounded_eq_iff`, `Binary64.min_rounded_eq_iff`,
`Binary64.IsPlace.lastPlace_eq`, `Binary64.IsPlace.exists_nearest`,
`Binary64.exists_nearest_whole`, `Binary64.toInt?_nearest_of_not_dvd`.
-/
import OpenScad.Proofs.Number.Whole

namespace OpenScad
namespace Binary64

/-! ### Rounding a quotient -/

section Quotient

variable {num den : Nat}

/-- A quotient is rounded down up to half a unit, and up from there. -/
theorem roundHalfEven_cases (num den : Nat) :
    (roundHalfEven num den = num / den ∧ 2 * (num % den) ≤ den) ∨
      (roundHalfEven num den = num / den + 1 ∧ den ≤ 2 * (num % den)) := by
  unfold roundHalfEven
  simp only
  split
  · exact .inl ⟨rfl, by omega⟩
  · split
    · exact .inr ⟨rfl, by omega⟩
    · split
      · exact .inl ⟨rfl, by omega⟩
      · exact .inr ⟨rfl, by omega⟩

theorem div_le_roundHalfEven : num / den ≤ roundHalfEven num den := by
  rcases roundHalfEven_cases num den with ⟨h, -⟩ | ⟨h, -⟩ <;> omega

theorem roundHalfEven_le_succ : roundHalfEven num den ≤ num / den + 1 := by
  rcases roundHalfEven_cases num den with ⟨h, -⟩ | ⟨h, -⟩ <;> omega

theorem roundHalfEven_of_dvd (hden : 0 < den) (h : den ∣ num) :
    roundHalfEven num den = num / den := by
  have hrest : 2 * (num % den) < den := by
    rw [Nat.mod_eq_zero_of_dvd h]
    exact hden
  unfold roundHalfEven
  exact if_pos hrest

/-- Bounds that are multiples are kept. -/
theorem le_roundHalfEven {k : Nat} (hden : 0 < den) (h : k * den ≤ num) :
    k ≤ roundHalfEven num den :=
  Nat.le_trans ((Nat.le_div_iff_mul_le hden).mpr h) div_le_roundHalfEven

theorem roundHalfEven_le {k : Nat} (hden : 0 < den) (h : num < k * den) :
    roundHalfEven num den ≤ k := by
  have hlt : num / den < k := (Nat.div_lt_iff_lt_mul hden).mpr h
  exact Nat.le_trans roundHalfEven_le_succ hlt

theorem roundHalfEven_mul_left {c : Nat} (hc : 0 < c) :
    roundHalfEven (c * num) (c * den) = roundHalfEven num den := by
  have hbelow : 2 * (c * (num % den)) < c * den ↔ 2 * (num % den) < den := by
    rw [Nat.mul_left_comm]
    exact Nat.mul_lt_mul_left hc
  have habove : c * den < 2 * (c * (num % den)) ↔ den < 2 * (num % den) := by
    rw [Nat.mul_left_comm 2]
    exact Nat.mul_lt_mul_left hc
  unfold roundHalfEven
  simp only [Nat.mul_div_mul_left num den hc, Nat.mul_mod_mul_left, hbelow, habove]

/-- Equal quotients are rounded alike. -/
theorem roundHalfEven_congr {num' den' : Nat} (hden : 0 < den) (hden' : 0 < den')
    (h : num * den' = num' * den) : roundHalfEven num den = roundHalfEven num' den' := by
  calc roundHalfEven num den
      = roundHalfEven (den' * num) (den' * den) := (roundHalfEven_mul_left hden').symm
    _ = roundHalfEven (den * num') (den * den') := by
        rw [Nat.mul_comm den' num, h, Nat.mul_comm num' den, Nat.mul_comm den' den]
    _ = roundHalfEven num' den' := roundHalfEven_mul_left hden

/-- A rounded quotient is at most half a unit away. -/
theorem roundHalfEven_near (num : Nat) (hden : 0 < den) :
    2 * num ≤ 2 * (roundHalfEven num den * den) + den ∧
      2 * (roundHalfEven num den * den) ≤ 2 * num + den := by
  have hsplit : num / den * den + num % den = num := Nat.div_add_mod' num den
  have hnext : (num / den + 1) * den = num / den * den + den := Nat.succ_mul _ _
  have hlt : num % den < den := Nat.mod_lt num hden
  rcases roundHalfEven_cases num den with ⟨h, hrest⟩ | ⟨h, hrest⟩
  · rw [h]
    omega
  · rw [h]
    omega

end Quotient

/-! ### Rounding a whole number -/

theorem log2_lt_of_lt {n k : Nat} (hk : 0 < k) (h : n < 2 ^ k) : Nat.log2 n < k := by
  rcases Nat.eq_zero_or_pos n with rfl | hpos
  · exact hk
  · exact (Nat.log2_lt (Nat.ne_of_gt hpos)).mpr h

/-- The unit of the last of 53 bits of a whole number. -/
def lastUnit (n : Nat) : Nat := 2 ^ (Nat.log2 n - 52)

/-- The whole number nearest to a whole number among those of 53 bits. -/
def rounded (n : Nat) : Nat := roundHalfEven n (lastUnit n) * lastUnit n

theorem lastUnit_pos (n : Nat) : 0 < lastUnit n := Nat.pow_pos (by decide)

/-- **A whole number stays as it is** if and only if it has 53 bits, not counting zeros. -/
theorem rounded_eq_iff {n : Nat} : rounded n = n ↔ lastUnit n ∣ n := by
  constructor
  · intro h
    exact ⟨roundHalfEven n (lastUnit n), by rw [Nat.mul_comm]; exact h.symm⟩
  · intro h
    rw [rounded, roundHalfEven_of_dvd (lastUnit_pos n) h]
    exact Nat.div_mul_cancel h

theorem rounded_of_lt {n : Nat} (h : n < 2 ^ 53) : rounded n = n := by
  have hlog : Nat.log2 n < 53 := log2_lt_of_lt (by decide) h
  rw [rounded_eq_iff, lastUnit, Nat.sub_eq_zero_of_le (by omega)]
  exact Nat.one_dvd n

theorem rounded_pos {n : Nat} (h : 0 < n) : 0 < rounded n := by
  refine Nat.mul_pos ?_ (lastUnit_pos n)
  refine le_roundHalfEven (lastUnit_pos n) ?_
  rw [Nat.one_mul, lastUnit]
  calc 2 ^ (Nat.log2 n - 52) ≤ 2 ^ Nat.log2 n := Nat.pow_le_pow_right (by decide) (Nat.sub_le _ _)
    _ ≤ n := Nat.log2_self_le (Nat.ne_of_gt h)

/-- Cut to the greatest word, a word stays as it is if it has 53 bits, and the greatest
word does too. -/
theorem min_rounded_eq_iff {n : Nat} (h : n < 2 ^ 64) :
    min (rounded n) (2 ^ 64 - 1) = n ↔ lastUnit n ∣ n ∨ n = 2 ^ 64 - 1 := by
  rw [← rounded_eq_iff]
  constructor
  · intro hmin
    omega
  · rintro (hexact | rfl)
    · omega
    · decide +kernel

/-! ### The unit of the last place -/

section Place

variable {num den j : Nat}

/-- Counted in `2 ^ j` of the least units the quotient has 53 bits before the point. -/
structure IsPlace (num den j : Nat) : Prop where
  pos : 1 ≤ j
  low : 2 ^ 52 * (den * 2 ^ j) ≤ num * 2 ^ unitPower
  high : num * 2 ^ unitPower < 2 ^ 53 * (den * 2 ^ j)

theorem IsPlace.den_pos (h : IsPlace num den j) : 0 < den := by
  rcases Nat.eq_zero_or_pos den with rfl | hpos
  · have := h.high
    simp at this
  · exact hpos

theorem IsPlace.num_ne_zero (h : IsPlace num den j) : num ≠ 0 := by
  rintro rfl
  have hpos : 0 < 2 ^ 52 * (den * 2 ^ j) :=
    Nat.mul_pos (by decide) (Nat.mul_pos h.den_pos (Nat.pow_pos (by decide)))
  have hlow := h.low
  rw [Nat.zero_mul] at hlow
  omega

/-- The quotient in units is the same quotient, whichever way the power is applied. -/
theorem inUnits_cross (num den : Nat) {power : Int} (h : power + unitPower = j) :
    (inUnits num den power).1 * (den * 2 ^ j) =
      num * 2 ^ unitPower * (inUnits num den power).2 := by
  have hpower : (-power).toNat + j = unitPower + power.toNat := by omega
  calc num * 2 ^ (-power).toNat * (den * 2 ^ j)
      = num * den * (2 ^ (-power).toNat * 2 ^ j) := by ring
    _ = num * den * (2 ^ unitPower * 2 ^ power.toNat) := by
        rw [← Nat.pow_add, hpower, Nat.pow_add]
    _ = num * 2 ^ unitPower * (den * 2 ^ power.toNat) := by ring

theorem le_inUnits_iff (hden : 0 < den) {power : Int} (h : power + unitPower = j) (k : Nat) :
    k * (inUnits num den power).2 ≤ (inUnits num den power).1 ↔
      k * (den * 2 ^ j) ≤ num * 2 ^ unitPower := by
  have hcross := inUnits_cross num den h
  have hunit : 0 < den * 2 ^ j := Nat.mul_pos hden (Nat.pow_pos (by decide))
  have hpos : 0 < (inUnits num den power).2 := Nat.mul_pos hden (Nat.pow_pos (by decide))
  calc k * (inUnits num den power).2 ≤ (inUnits num den power).1
      ↔ k * (inUnits num den power).2 * (den * 2 ^ j) ≤
          (inUnits num den power).1 * (den * 2 ^ j) := (Nat.mul_le_mul_right_iff hunit).symm
    _ ↔ k * (den * 2 ^ j) * (inUnits num den power).2 ≤
          num * 2 ^ unitPower * (inUnits num den power).2 := by
        rw [hcross, Nat.mul_right_comm]
    _ ↔ k * (den * 2 ^ j) ≤ num * 2 ^ unitPower := Nat.mul_le_mul_right_iff hpos

/-- The logarithms leave two places to choose from. -/
theorem IsPlace.log2_bounds (h : IsPlace num den j) :
    Nat.log2 num + 1022 ≤ Nat.log2 den + j ∧ Nat.log2 den + j ≤ Nat.log2 num + 1023 := by
  have hden := Nat.log2_self_le (Nat.ne_of_gt h.den_pos)
  have hnum := Nat.log2_self_le h.num_ne_zero
  have hlow : 2 ^ (52 + (Nat.log2 den + j)) < 2 ^ (Nat.log2 num + 1 + unitPower) := by
    calc 2 ^ (52 + (Nat.log2 den + j))
        = 2 ^ 52 * (2 ^ Nat.log2 den * 2 ^ j) := by rw [Nat.pow_add, Nat.pow_add]
      _ ≤ 2 ^ 52 * (den * 2 ^ j) := Nat.mul_le_mul_left _ (Nat.mul_le_mul_right _ hden)
      _ ≤ num * 2 ^ unitPower := h.low
      _ < 2 ^ (Nat.log2 num + 1) * 2 ^ unitPower :=
          Nat.mul_lt_mul_of_pos_right Nat.lt_log2_self (Nat.pow_pos (by decide))
      _ = 2 ^ (Nat.log2 num + 1 + unitPower) := (Nat.pow_add ..).symm
  have hhigh : 2 ^ (Nat.log2 num + unitPower) < 2 ^ (53 + (Nat.log2 den + 1 + j)) := by
    calc 2 ^ (Nat.log2 num + unitPower)
        = 2 ^ Nat.log2 num * 2 ^ unitPower := Nat.pow_add ..
      _ ≤ num * 2 ^ unitPower := Nat.mul_le_mul_right _ hnum
      _ < 2 ^ 53 * (den * 2 ^ j) := h.high
      _ ≤ 2 ^ 53 * (2 ^ (Nat.log2 den + 1) * 2 ^ j) :=
          Nat.mul_le_mul_left _ (Nat.mul_le_mul_right _ (Nat.le_of_lt Nat.lt_log2_self))
      _ = 2 ^ (53 + (Nat.log2 den + 1 + j)) := by rw [← Nat.pow_add, ← Nat.pow_add]
  have hlow' := (Nat.pow_lt_pow_iff_right (by decide)).mp hlow
  have hhigh' := (Nat.pow_lt_pow_iff_right (by decide)).mp hhigh
  have hunit : unitPower = 1075 := rfl
  omega

/-- **The last place is the one that leaves 53 bits.** -/
theorem IsPlace.lastPlace_eq (h : IsPlace num den j) :
    lastPlace num den = (j : Int) - unitPower := by
  obtain ⟨hle, hge⟩ := h.log2_bounds
  have hunit : (unitPower : Int) = 1075 := rfl
  have hleast : leastPower = -1074 := rfl
  have hpos := h.pos
  -- the guess is the place itself or the one below it, and the comparison tells which
  have hguess : max ((Nat.log2 num : Int) - Nat.log2 den - 53) leastPower = (j : Int) - unitPower ∨
      max ((Nat.log2 num : Int) - Nat.log2 den - 53) leastPower = (j - 1 : Nat) - unitPower ∧
        2 ≤ j := by
    rw [hleast, hunit]
    omega
  rcases hguess with hsame | ⟨hbelow, htwo⟩
  · have hnot : ¬ 2 ^ 53 * (inUnits num den ((j : Int) - unitPower)).2 ≤
        (inUnits num den ((j : Int) - unitPower)).1 := by
      rw [le_inUnits_iff h.den_pos (j := j) (by omega)]
      exact Nat.not_le.mpr h.high
    rw [lastPlace, hsame]
    exact if_neg hnot
  · have hle : 2 ^ 53 * (inUnits num den ((j - 1 : Nat) - unitPower)).2 ≤
        (inUnits num den ((j - 1 : Nat) - unitPower)).1 := by
      rw [le_inUnits_iff h.den_pos (j := j - 1) (by omega)]
      calc 2 ^ 53 * (den * 2 ^ (j - 1)) = 2 ^ 52 * (den * (2 ^ (j - 1) * 2)) := by ring
        _ = 2 ^ 52 * (den * 2 ^ j) := by
            rw [← Nat.pow_succ, Nat.succ_eq_add_one, Nat.sub_add_cancel h.pos]
        _ ≤ num * 2 ^ unitPower := h.low
    rw [lastPlace, hbelow]
    exact (if_pos hle).trans (by omega)

end Place

/-! ### The nearest number -/

/-- A significand is put behind the exponent's field; its hidden bit adds one to the
exponent, and two if it is rounded up to a power of two. -/
theorem exists_ofFields {p q : Nat} (negative : Bool) (hp : p + 2 < 2047) (hle : 2 ^ 52 ≤ q)
    (hge : q ≤ 2 ^ 53) : ∃ e f, ofFields negative (p * 2 ^ 52 + q) = .finite negative e f ∧
      units e f = q * 2 ^ (p + 1) := by
  have hpow : Nat.pow 2 52 = 2 ^ 52 := rfl
  rcases Nat.lt_or_eq_of_le hge with hlt | rfl
  · have hdiv : (p * 2 ^ 52 + q) / Nat.pow 2 52 = p + 1 := by
      rw [hpow]
      omega
    have hmod : (p * 2 ^ 52 + q) % Nat.pow 2 52 = q - 2 ^ 52 := by
      rw [hpow]
      omega
    have hfield : (p * 2 ^ 52 + q) / Nat.pow 2 52 < 2047 := by omega
    refine ⟨_, _, dif_pos hfield, ?_⟩
    simp only [units, significand, hdiv, hmod]
    rw [if_neg (Nat.succ_ne_zero p), Nat.max_eq_left (Nat.succ_le_succ (Nat.zero_le p)), hpow,
      Nat.add_sub_cancel' hle]
  · have hdiv : (p * 2 ^ 52 + 2 ^ 53) / Nat.pow 2 52 = p + 2 := by
      rw [hpow]
      omega
    have hmod : (p * 2 ^ 52 + 2 ^ 53) % Nat.pow 2 52 = 0 := by
      rw [hpow]
      omega
    have hfield : (p * 2 ^ 52 + 2 ^ 53) / Nat.pow 2 52 < 2047 := by omega
    refine ⟨_, _, dif_pos hfield, ?_⟩
    simp only [units, significand, hdiv, hmod]
    rw [if_neg (Nat.succ_ne_zero (p + 1)),
      Nat.max_eq_left (Nat.succ_le_succ (Nat.zero_le (p + 1))), hpow, Nat.add_zero]
    calc 2 ^ 52 * 2 ^ (p + 1 + 1) = 2 ^ 52 * 2 * 2 ^ (p + 1) := by
          rw [Nat.pow_succ 2 (p + 1), Nat.mul_assoc, Nat.mul_comm 2]
      _ = 2 ^ 53 * 2 ^ (p + 1) := rfl

theorem toInt?_of_units {e : Fin 2047} {f : Fin (Nat.pow 2 52)} {k : Nat} (negative : Bool)
    (h : units e f = k * 2 ^ unitPower) :
    (Binary64.finite negative e f).toInt? = some (if negative then -(k : Int) else k) := by
  have hratio := units_eq_iff_ratio.mp h
  have hpos : 0 < (ratio e f).2 := Nat.pow_pos (by decide)
  rw [toInt?]
  simp only [hratio, Nat.mul_mod_left, if_true, Nat.mul_div_cancel k hpos]

theorem isFinite_of_toInt? {x : Binary64} {n : Int} (h : x.toInt? = some n) :
    x.isFinite = true := by
  obtain ⟨s, e, f, -, rfl, -, -⟩ := exists_of_toInt? h
  rfl

section Nearest

variable {num den j : Nat}

/-- The fields of the nearest number: the place, and the quotient rounded there. -/
theorem IsPlace.nearest_eq (h : IsPlace num den j) (negative : Bool) :
    nearest negative num den = ofFields negative
      ((j - 1) * 2 ^ 52 + roundHalfEven (num * 2 ^ unitPower) (den * 2 ^ j)) := by
  have hpower : 0 < 2 ^ j := Nat.pow_pos (by decide)
  have hpos := h.pos
  have hplace : ((j : Int) - unitPower - leastPower).toNat = j - 1 := by
    have hunit : (unitPower : Int) = 1075 := rfl
    rw [hunit, leastPower]
    omega
  have hround : roundHalfEven (inUnits num den ((j : Int) - unitPower)).1
      (inUnits num den ((j : Int) - unitPower)).2 =
      roundHalfEven (num * 2 ^ unitPower) (den * 2 ^ j) :=
    roundHalfEven_congr (Nat.mul_pos h.den_pos (Nat.pow_pos (by decide)))
      (Nat.mul_pos h.den_pos hpower) (inUnits_cross num den (by omega))
  rw [nearest, if_neg h.num_ne_zero, h.lastPlace_eq]
  simp only [hplace, hround]
  rfl

/-- **The nearest number is the quotient rounded at its last place.** -/
theorem IsPlace.exists_nearest (h : IsPlace num den j) (hj : j < 2046) (negative : Bool) :
    ∃ e f, nearest negative num den = .finite negative e f ∧
      units e f = roundHalfEven (num * 2 ^ unitPower) (den * 2 ^ j) * 2 ^ j := by
  have hunit : 0 < den * 2 ^ j := Nat.mul_pos h.den_pos (Nat.pow_pos (by decide))
  have hle := le_roundHalfEven hunit h.low
  have hge := roundHalfEven_le hunit h.high
  have hpos := h.pos
  obtain ⟨e, f, hfields, hunits⟩ :=
    exists_ofFields (p := j - 1) negative (by omega) hle hge
  refine ⟨e, f, (h.nearest_eq negative).trans hfields, ?_⟩
  rw [hunits, Nat.sub_add_cancel hpos]

/-- A quotient that is not too small has a place. -/
theorem exists_isPlace (hden : 0 < den) (h : 2 ^ 53 * den ≤ num * 2 ^ unitPower) :
    ∃ j, IsPlace num den j := by
  have hdiv : 2 ^ 53 ≤ num * 2 ^ unitPower / den := (Nat.le_div_iff_mul_le hden).mpr h
  have hne : num * 2 ^ unitPower / den ≠ 0 := by omega
  have hlog : 53 ≤ Nat.log2 (num * 2 ^ unitPower / den) := (Nat.le_log2 hne).mpr hdiv
  obtain ⟨j, hj⟩ : ∃ j, Nat.log2 (num * 2 ^ unitPower / den) = 52 + j :=
    ⟨_, (Nat.add_sub_of_le (by omega)).symm⟩
  have hlow := Nat.log2_self_le hne
  have hhigh := Nat.lt_log2_self (n := num * 2 ^ unitPower / den)
  rw [hj, Nat.pow_add, Nat.le_div_iff_mul_le hden] at hlow
  rw [hj, Nat.add_right_comm, Nat.pow_add, Nat.div_lt_iff_lt_mul hden] at hhigh
  refine ⟨j, by omega, ?_, ?_⟩
  · rwa [Nat.mul_comm den, ← Nat.mul_assoc]
  · rwa [Nat.mul_comm den, ← Nat.mul_assoc]

theorem IsPlace.of_mul_right {c : Nat} (hc : 0 < c) (h : IsPlace (num * c) (den * c) j) :
    IsPlace num den j := by
  have hlow := h.low
  have hhigh := h.high
  rw [Nat.mul_right_comm num, Nat.mul_right_comm den, ← Nat.mul_assoc] at hlow hhigh
  exact ⟨h.pos, Nat.le_of_mul_le_mul_right hlow hc, Nat.lt_of_mul_lt_mul_right hhigh⟩

/-- A quotient that is not whole becomes no whole number, unless it has too many digits: half a
unit of its last place is less than its distance from all whole numbers. -/
theorem toInt?_nearest_of_not_dvd {c : Nat} (hden : 0 < den) (hdvd : ¬ den ∣ num)
    (hnum : num < 2 ^ 53) (hlow : 2 ^ 53 * den ≤ 2 ^ unitPower) (hc : 0 < c) (negative : Bool) :
    (nearest negative (num * c) (den * c)).toInt? = none := by
  have hpos : ∀ i, 0 < 2 ^ i := fun i => Nat.pow_pos (by decide)
  have hnonzero : 0 < num := Nat.pos_of_ne_zero fun hzero => hdvd (hzero ▸ Nat.dvd_zero den)
  obtain ⟨j, hplace⟩ : ∃ j, IsPlace (num * c) (den * c) j := by
    refine exists_isPlace (Nat.mul_pos hden hc) ?_
    calc 2 ^ 53 * (den * c) = 2 ^ 53 * den * c := (Nat.mul_assoc ..).symm
      _ ≤ num * 2 ^ unitPower * c :=
          Nat.mul_le_mul_right _ (Nat.le_trans hlow (Nat.le_mul_of_pos_left _ hnonzero))
      _ = num * c * 2 ^ unitPower := Nat.mul_right_comm ..
  have hreduced := hplace.of_mul_right hc
  have hlt : j < 2046 := by
    have hlog : Nat.log2 num < 53 := log2_lt_of_lt (by decide) hnum
    have hbounds := hreduced.log2_bounds
    omega
  obtain ⟨e, f, hnearest, hunits⟩ := hplace.exists_nearest hlt negative
  rw [hnearest]
  by_contra hsome
  obtain ⟨n, hn⟩ := Option.ne_none_iff_exists'.mp hsome
  obtain ⟨_, _, _, k, hfinite, hwhole, _⟩ := exists_of_toInt? hn
  cases hfinite
  have hround : roundHalfEven (num * c * 2 ^ unitPower) (den * c * 2 ^ j) =
      roundHalfEven (num * 2 ^ unitPower) (den * 2 ^ j) := by
    refine roundHalfEven_congr (Nat.mul_pos (Nat.mul_pos hden hc) (hpos j))
      (Nat.mul_pos hden (hpos j)) ?_
    ring
  rw [hround, hwhole] at hunits
  obtain ⟨hbelow, habove⟩ :=
    roundHalfEven_near (num * 2 ^ unitPower) (Nat.mul_pos hden (hpos j))
  have hrounded : roundHalfEven (num * 2 ^ unitPower) (den * 2 ^ j) * (den * 2 ^ j) =
      k * den * 2 ^ unitPower := by
    rw [Nat.mul_left_comm, ← hunits, ← Nat.mul_assoc, Nat.mul_comm den]
  rw [hrounded] at hbelow habove
  have hhalf : 2 * 2 ^ unitPower ≤ den * 2 ^ j := by
    rcases Nat.lt_trichotomy num (k * den) with hless | heq | hgreater
    · have hstep := Nat.mul_le_mul_right (2 ^ unitPower) (Nat.succ_le_of_lt hless)
      rw [Nat.succ_mul] at hstep
      omega
    · exact absurd (heq ▸ Nat.dvd_mul_left den k) hdvd
    · have hstep := Nat.mul_le_mul_right (2 ^ unitPower) (Nat.succ_le_of_lt hgreater)
      rw [Nat.succ_mul] at hstep
      omega
  have hdigits : 2 ^ 53 * 2 ^ unitPower ≤ num * 2 ^ unitPower := by
    calc 2 ^ 53 * 2 ^ unitPower = 2 ^ 52 * (2 * 2 ^ unitPower) := by ring
      _ ≤ 2 ^ 52 * (den * 2 ^ j) := Nat.mul_le_mul_left _ hhalf
      _ ≤ num * 2 ^ unitPower := hreduced.low
  exact absurd (Nat.le_of_mul_le_mul_right hdigits (hpos _)) (Nat.not_le.mpr hnum)

/-- The place of a whole number. -/
def wholePlace (k : Nat) : Nat := Nat.log2 k + 1023

theorem pow_wholePlace (k : Nat) :
    2 ^ 52 * 2 ^ wholePlace k = 2 ^ Nat.log2 k * 2 ^ unitPower := by
  have hexponent : 52 + wholePlace k = Nat.log2 k + unitPower := by
    rw [wholePlace, unitPower]
    omega
  rw [← Nat.pow_add, hexponent, Nat.pow_add]

theorem isPlace_whole {k : Nat} (hk : k ≠ 0) (hden : 0 < den) :
    IsPlace (k * den) den (wholePlace k) := by
  have hpower := pow_wholePlace k
  refine ⟨Nat.le_add_left 1 _, ?_, ?_⟩
  · calc 2 ^ 52 * (den * 2 ^ wholePlace k)
        = 2 ^ Nat.log2 k * den * 2 ^ unitPower := by
          rw [Nat.mul_left_comm, hpower, ← Nat.mul_assoc, Nat.mul_comm den]
      _ ≤ k * den * 2 ^ unitPower :=
          Nat.mul_le_mul_right _ (Nat.mul_le_mul_right _ (Nat.log2_self_le hk))
  · calc k * den * 2 ^ unitPower
        < 2 ^ (Nat.log2 k + 1) * den * 2 ^ unitPower :=
          Nat.mul_lt_mul_of_pos_right (Nat.mul_lt_mul_of_pos_right Nat.lt_log2_self hden)
            (Nat.pow_pos (by decide))
      _ = 2 * (den * (2 ^ Nat.log2 k * 2 ^ unitPower)) := by ring
      _ = 2 * (den * (2 ^ 52 * 2 ^ wholePlace k)) := by rw [hpower]
      _ = 2 ^ 53 * (den * 2 ^ wholePlace k) := by ring

/-- A whole quotient at its place is the rounded number. -/
theorem significand_eq_rounded (k : Nat) (hden : 0 < den) :
    roundHalfEven (k * den * 2 ^ unitPower) (den * 2 ^ wholePlace k) * 2 ^ wholePlace k =
      rounded k * 2 ^ unitPower := by
  have hpos : ∀ i, 0 < 2 ^ i := fun i => Nat.pow_pos (by decide)
  by_cases hlog : 52 ≤ Nat.log2 k
  · have hexponent : wholePlace k = Nat.log2 k - 52 + unitPower := by
      rw [wholePlace, unitPower]
      omega
    have hplace : 2 ^ wholePlace k = lastUnit k * 2 ^ unitPower := by
      rw [hexponent, Nat.pow_add]
      rfl
    have hround : roundHalfEven (k * den * 2 ^ unitPower) (den * 2 ^ wholePlace k) =
        roundHalfEven k (lastUnit k) := by
      refine roundHalfEven_congr (Nat.mul_pos hden (hpos _)) (lastUnit_pos k) ?_
      rw [hplace]
      ring
    rw [hround, hplace, ← Nat.mul_assoc]
    rfl
  · have hexponent : unitPower = 52 - Nat.log2 k + wholePlace k := by
      rw [wholePlace, unitPower]
      omega
    have hplace : 2 ^ unitPower = 2 ^ (52 - Nat.log2 k) * 2 ^ wholePlace k := by
      rw [hexponent, Nat.pow_add]
    have hmul : k * den * 2 ^ unitPower =
        k * 2 ^ (52 - Nat.log2 k) * (den * 2 ^ wholePlace k) := by
      rw [hplace]
      ring
    have hround : roundHalfEven (k * den * 2 ^ unitPower) (den * 2 ^ wholePlace k) =
        k * 2 ^ (52 - Nat.log2 k) := by
      rw [hmul, roundHalfEven_of_dvd (Nat.mul_pos hden (hpos _)) (Nat.dvd_mul_left _ _),
        Nat.mul_div_cancel _ (Nat.mul_pos hden (hpos _))]
    have hunit : lastUnit k = 1 := by
      rw [lastUnit, Nat.sub_eq_zero_of_le (by omega), Nat.pow_zero]
    have hself : rounded k = k := rounded_eq_iff.mpr (hunit ▸ Nat.one_dvd k)
    rw [hround, hself, hplace, Nat.mul_assoc]

/-- **A quotient that is a whole number becomes the rounded one.** -/
theorem exists_nearest_whole {k : Nat} (hden : 0 < den) (hlog : Nat.log2 k < 1023)
    (negative : Bool) : ∃ e f, nearest negative (k * den) den = .finite negative e f ∧
      units e f = rounded k * 2 ^ unitPower := by
  rcases Nat.eq_zero_or_pos k with rfl | hpos
  · refine ⟨0, 0, by rw [Nat.zero_mul, nearest, if_pos rfl, zero], ?_⟩
    have hself : rounded 0 = 0 := rounded_of_lt (by decide)
    rw [hself, Nat.zero_mul]
    rfl
  · have hk := Nat.ne_of_gt hpos
    have hplace : wholePlace k < 2046 := by
      rw [wholePlace]
      omega
    obtain ⟨e, f, hnearest, hunits⟩ := (isPlace_whole hk hden).exists_nearest hplace negative
    exact ⟨e, f, hnearest, hunits.trans (significand_eq_rounded k hden)⟩

end Nearest

/-- A whole number rounded to 53 bits, with its sign. -/
def roundedInt (n : Int) : Int := if n < 0 then -(rounded n.natAbs : Int) else rounded n.natAbs

/-- **A whole number becomes the rounded one**, if it is in the range. -/
theorem toInt?_ofInt {n : Int} (h : Nat.log2 n.natAbs < 1023) :
    (ofInt n).toInt? = some (roundedInt n) := by
  obtain ⟨e, f, hnearest, hunits⟩ := exists_nearest_whole Nat.one_pos h (decide (n < 0))
  rw [Nat.mul_one] at hnearest
  rw [ofInt, hnearest, toInt?_of_units _ hunits, roundedInt]
  simp only [decide_eq_true_eq]

end Binary64
end OpenScad
