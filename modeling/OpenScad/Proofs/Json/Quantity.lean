/-
# Which numbers numerals become

A numeral of few digits with a power of ten near zero is converted in one step:
its digits and the power are exact, and the product or quotient is rounded once.
A numeral without fraction and power is converted at once if it fits in a word.
In both cases the number is whole if and only if the numeral denotes a whole
number, and then it is the rounding of that number
(`Json.Numeral.exists_quantity_of_short`).

Not covered: numerals of more digits or with powers further away, whose digits
are cut or rounded before the power is applied.

Key definitions: `Json.Numeral.Denotes`, `Json.Numeral.Short`, `Json.Quantity.toBinary64`.
Key theorems: `Json.takeFitting_of_lt`, `Json.exists_scaled`,
`Json.Numeral.exists_quantity_of_short`, `Json.Numeral.denotes_of_toJson`.
-/
import OpenScad.Json.Read
import OpenScad.Proofs.Number.Arithmetic
import OpenScad.Proofs.Number.Digits

namespace OpenScad

theorem Binary64.roundedInt_signed (negative : Bool) (k : Nat) :
    roundedInt (if negative then -(k : Int) else k) =
      if negative then -(rounded k : Int) else rounded k := by
  unfold roundedInt
  rcases Nat.eq_zero_or_pos k with rfl | hpos
  · have hself : rounded 0 = 0 := rounded_of_lt (by decide)
    simp [hself]
  · cases negative with
    | false =>
      have hnot : ¬ (k : Int) < 0 := by omega
      simp [hnot]
    | true =>
      have hneg : -(k : Int) < 0 := by omega
      simp only [if_true, hneg, Int.natAbs_neg, Int.natAbs_natCast]

namespace Json

/-! ### What numerals denote -/

namespace Numeral

variable (n : Numeral)

/-- The number that all digits spell, those behind the point too. -/
def digits : Nat := Decimal.ofDigits (n.whole ++ n.fraction.getD [])

/-- The power of ten by which the number of the digits is multiplied. -/
def power : Int := n.exponent.getD 0 - (n.fraction.getD []).length

/-- The numeral is this whole number. -/
def Denotes (k : Int) : Prop :=
  ∃ j : Nat, n.digits * 10 ^ n.power.toNat = j * 10 ^ (-n.power).toNat ∧
    k = if n.negative then -(j : Int) else j

/-- The numeral is a word without fraction and power, with a sign or without, or it has at most
53 bits of digits and a power of ten that is exact. -/
inductive Short : Prop where
  | word (fraction_eq : n.fraction = none) (exponent_eq : n.exponent = none)
      (digits_lt : n.digits < 2 ^ 64)
      (of_negative : n.negative = true → 0 < n.digits ∧ n.digits ≤ 2 ^ 63)
  | few (digits_lt : n.digits < 2 ^ 53) (le_power : -22 ≤ n.power) (power_le : n.power ≤ 22)

end Numeral

/-- The floating-point number of a number. -/
def Quantity.toBinary64 : Quantity → Binary64
  | natural n => .ofInt n
  | negative n => .ofInt n
  | real x => x

/-! ### Few digits -/

theorem ofDigits_cons (c : Char) (ds : List Char) :
    Decimal.ofDigits (c :: ds) = 10 ^ ds.length * Decimal.digitValue c + Decimal.ofDigits ds := by
  have happend := Decimal.ofDigits_append [c] ds
  have hlone : Decimal.ofDigits [c] = Decimal.digitValue c := by simp [Decimal.ofDigits]
  rwa [hlone] at happend

/-- Digits are all taken if their number fits in a word. -/
theorem takeFitting_of_lt (ds : List Char) {n : Nat}
    (h : 10 ^ ds.length * n + Decimal.ofDigits ds < wordLimit) :
    takeFitting n ds = (10 ^ ds.length * n + Decimal.ofDigits ds, ds.length) := by
  induction ds generalizing n with
  | nil => simp [takeFitting, Decimal.ofDigits]
  | cons c ds ih =>
    have hnext : 10 ^ (c :: ds).length * n + Decimal.ofDigits (c :: ds) =
        10 ^ ds.length * (10 * n + Decimal.digitValue c) + Decimal.ofDigits ds := by
      rw [ofDigits_cons, List.length_cons, Nat.pow_succ]
      ring
    rw [hnext] at h ⊢
    have hfits : 10 * n + Decimal.digitValue c < wordLimit := by
      have hle := Nat.le_mul_of_pos_left (10 * n + Decimal.digitValue c)
        (Nat.pow_pos (a := 10) (n := ds.length) (by decide))
      omega
    simp only [takeFitting, hfits, if_true, ih h, List.length_cons]

theorem Numeral.toReal?_of_lt {n : Numeral} (h : n.digits < 2 ^ 53) :
    n.toReal? = (scaled (.ofInt n.digits) n.power 5).map fun x =>
      if n.negative then x.neg else x := by
  have hlimit : wordLimit = 2 ^ 64 := rfl
  have hdigits : n.digits = 10 ^ (n.fraction.getD []).length * Decimal.ofDigits n.whole +
      Decimal.ofDigits (n.fraction.getD []) := Decimal.ofDigits_append _ _
  have hfits : Decimal.ofDigits n.whole < wordLimit := by
    have hle := Nat.le_mul_of_pos_left (Decimal.ofDigits n.whole)
      (Nat.pow_pos (a := 10) (n := (n.fraction.getD []).length) (by decide))
    omega
  have hwhole : takeFitting 0 n.whole = (Decimal.ofDigits n.whole, n.whole.length) := by
    have htaken := takeFitting_of_lt (n := 0) n.whole (by rwa [Nat.mul_zero, Nat.zero_add])
    rwa [Nat.mul_zero, Nat.zero_add] at htaken
  have hfraction : takeFitting (Decimal.ofDigits n.whole) (n.fraction.getD []) =
      (n.digits, (n.fraction.getD []).length) := by
    rw [hdigits]
    exact takeFitting_of_lt _ (by omega)
  have hpower : ((n.whole.length - n.whole.length : Nat) : Int) - (n.fraction.getD []).length +
      n.exponent.getD 0 = n.power := by
    rw [power]
    omega
  simp only [toReal?, hwhole, hfraction, hpower]
  cases scaled (.ofInt n.digits) n.power 5 <;> rfl

/-- Bounds of the powers of ten that are exact. -/
theorem ten_pow_le {n : Nat} (h : n ≤ 22) : 10 ^ n ≤ 2 ^ 74 :=
  Nat.le_trans (Nat.pow_le_pow_right (by decide) h) (by decide)

theorem log2_mul_ten_pow_lt {a n : Nat} (ha : a < 2 ^ 53) (hn : n ≤ 22) :
    Nat.log2 (a * 10 ^ n) < 1023 := by
  have hproduct : a * 10 ^ n < 2 ^ 127 := by
    calc a * 10 ^ n < 2 ^ 53 * 10 ^ n :=
          Nat.mul_lt_mul_of_pos_right ha (Nat.pow_pos (by decide))
      _ ≤ 2 ^ 53 * 2 ^ 74 := Nat.mul_le_mul_left _ (ten_pow_le hn)
      _ = 2 ^ 127 := by rw [← Nat.pow_add]
  have hlog := Binary64.log2_lt_of_lt (by decide) hproduct
  omega

/-- **Few digits and a near power are converted in one step**: what comes out is whole if and
only if the number is, and then it is the rounding of it. -/
theorem exists_scaled {x : Binary64} {a : Nat} {power : Int} (hx : x.IsWhole a) (ha : a < 2 ^ 53)
    (hlow : -22 ≤ power) (hhigh : power ≤ 22) :
    ∃ y, scaled x power 5 = some y ∧ ∀ m : Int, y.toInt? = some m ↔
      ∃ j : Nat, a * 10 ^ power.toNat = j * 10 ^ (-power).toNat ∧ m = Binary64.rounded j := by
  obtain ⟨n, hn⟩ : ∃ n, power.natAbs = n := ⟨_, rfl⟩
  have hnear : power.natAbs ≤ greatestPower := by
    rw [greatestPower]
    omega
  have hle : n ≤ 22 := by omega
  have hten := isWhole_powerOfTen hle
  rw [scaled, if_pos hnear, hn]
  by_cases hsign : 0 ≤ power
  · have hup : power.toNat = n := by omega
    have hdown : (-power).toNat = 0 := by omega
    have hproduct := hx.mul hten (log2_mul_ten_pow_lt ha hle)
    rw [if_pos hsign, hup, hdown]
    refine ⟨x.mul (powerOfTen n), if_pos (Binary64.isFinite_of_toInt? hproduct.toInt?),
      fun m => ?_⟩
    rw [hproduct.toInt?]
    simp [eq_comm]
  · have hup : power.toNat = 0 := by omega
    have hdown : (-power).toNat = n := by omega
    rw [if_neg hsign, hup, hdown]
    refine ⟨x.div (powerOfTen n), rfl, fun m => ?_⟩
    have hpos : 0 < 10 ^ n := Nat.pow_pos (by decide)
    rw [Nat.pow_zero, Nat.mul_one]
    by_cases hdvd : 10 ^ n ∣ a
    · obtain ⟨q, rfl⟩ := hdvd
      rw [Nat.mul_comm] at hx ha ⊢
      have hq : q < 2 ^ 53 := Nat.lt_of_le_of_lt (Nat.le_mul_of_pos_right q hpos) ha
      have hlog : Nat.log2 q < 53 := Binary64.log2_lt_of_lt (by decide) hq
      have hquotient := hx.div hten hpos (by omega)
      rw [hquotient.toInt?]
      simp [eq_comm, Nat.mul_left_inj (Nat.ne_of_gt hpos)]
    · have hfar : 2 ^ 53 * 10 ^ n ≤ 2 ^ Binary64.unitPower := by
        calc 2 ^ 53 * 10 ^ n ≤ 2 ^ 53 * 2 ^ 74 := Nat.mul_le_mul_left _ (ten_pow_le hle)
          _ = 2 ^ 127 := by rw [← Nat.pow_add]
          _ ≤ 2 ^ Binary64.unitPower := Nat.pow_le_pow_right (by decide) (by decide)
      rw [hx.toInt?_div_of_not_dvd hten hpos ha hfar hdvd]
      constructor
      · intro h
        cases h
      · rintro ⟨j, rfl, -⟩
        exact absurd (Nat.dvd_mul_left _ _) hdvd

/-! ### Short numerals -/

namespace Numeral

variable {n : Numeral}

/-- A numeral without fraction and power denotes the number of its digits. -/
theorem denotes_iff_of_plain (hfraction : n.fraction = none) (hexponent : n.exponent = none)
    {k : Int} : n.Denotes k ↔ k = if n.negative then -(n.digits : Int) else n.digits := by
  have hpower : n.power = 0 := by simp [power, hfraction, hexponent]
  simp [Denotes, hpower]

theorem Denotes.unique {k k' : Int} (h : n.Denotes k) (h' : n.Denotes k') : k = k' := by
  obtain ⟨j, hj, rfl⟩ := h
  obtain ⟨j', hj', rfl⟩ := h'
  have heq : j = j' :=
    Nat.eq_of_mul_eq_mul_right (Nat.pow_pos (by decide)) (hj.symm.trans hj')
  rw [heq]

theorem toInt?_signed_iff {x : Binary64}
    (h : ∀ m : Int, x.toInt? = some m ↔ ∃ j : Nat,
      n.digits * 10 ^ n.power.toNat = j * 10 ^ (-n.power).toNat ∧ m = Binary64.rounded j)
    (m : Int) :
    (if n.negative then x.neg else x).toInt? = some m ↔
      ∃ k, n.Denotes k ∧ m = Binary64.roundedInt k := by
  have hsigned : (if n.negative then x.neg else x).toInt? =
      x.toInt?.map fun m => if n.negative then -m else m := by
    cases n.negative with
    | false => simp
    | true => simpa using x.toInt?_neg
  rw [hsigned, Option.map_eq_some_iff]
  constructor
  · rintro ⟨m', hm', rfl⟩
    obtain ⟨j, hj, rfl⟩ := (h m').mp hm'
    exact ⟨_, ⟨j, hj, rfl⟩, (Binary64.roundedInt_signed n.negative j).symm⟩
  · rintro ⟨k, ⟨j, hj, rfl⟩, rfl⟩
    exact ⟨_, (h _).mpr ⟨j, hj, rfl⟩, (Binary64.roundedInt_signed n.negative j).symm⟩

theorem toQuantity?_of_word (hfraction : n.fraction = none) (hexponent : n.exponent = none)
    (hlt : n.digits < 2 ^ 64) (hnegative : n.negative = true → 0 < n.digits ∧ n.digits ≤ 2 ^ 63) :
    ∃ quantity, n.toQuantity? = some quantity ∧
      quantity.toBinary64 = .ofInt (if n.negative then -(n.digits : Int) else n.digits) := by
  have hlimit : wordLimit = 2 ^ 64 := rfl
  have hdigits : n.digits = Decimal.ofDigits n.whole := by simp [digits, hfraction]
  unfold toQuantity?
  simp only [hfraction, hexponent, Option.isNone_none, Bool.and_self, if_true, ← hdigits]
  cases hsign : n.negative with
  | false =>
    have hword : n.digits < wordLimit := hlt
    exact ⟨.natural n.digits, by simp [hword], rfl⟩
  | true =>
    obtain ⟨hpos, hle⟩ := hnegative hsign
    have hword : 2 * n.digits ≤ wordLimit := by omega
    exact ⟨.negative (-n.digits), by simp [hpos, hword], rfl⟩

/-- A word without fraction and power becomes its rounding. -/
theorem exists_quantity_of_word (hfraction : n.fraction = none) (hexponent : n.exponent = none)
    (hlt : n.digits < 2 ^ 64) (hnegative : n.negative = true → 0 < n.digits ∧ n.digits ≤ 2 ^ 63) :
    ∃ quantity, n.toQuantity? = some quantity ∧ ∀ m, quantity.toBinary64.toInt? = some m ↔
      ∃ k, n.Denotes k ∧ m = Binary64.roundedInt k := by
  obtain ⟨quantity, hquantity, hnumber⟩ := toQuantity?_of_word hfraction hexponent hlt hnegative
  refine ⟨quantity, hquantity, fun m => ?_⟩
  have habs : (if n.negative then -(n.digits : Int) else n.digits).natAbs = n.digits := by
    split <;> simp
  have hlog : Nat.log2 n.digits < 64 := Binary64.log2_lt_of_lt (by decide) hlt
  rw [hnumber, Binary64.toInt?_ofInt (by rw [habs]; omega)]
  constructor
  · intro h
    exact ⟨_, (denotes_iff_of_plain hfraction hexponent).mpr rfl, (Option.some.inj h).symm⟩
  · rintro ⟨k, hk, rfl⟩
    rw [(denotes_iff_of_plain hfraction hexponent).mp hk]

/-- Any other numeral, also a minus zero, is converted by its digits and power. -/
theorem toQuantity?_of_not_plain (h : ¬ (n.fraction = none ∧ n.exponent = none ∧
    (n.negative = true → 0 < n.digits))) : n.toQuantity? = n.toReal?.map .real := by
  unfold toQuantity?
  by_cases hparts : n.fraction = none ∧ n.exponent = none
  · obtain ⟨hfraction, hexponent⟩ := hparts
    have hdigits : n.digits = Decimal.ofDigits n.whole := by simp [digits, hfraction]
    simp only [hfraction, hexponent, true_and, Classical.not_imp, Nat.not_lt, Nat.le_zero] at h
    obtain ⟨hnegative, hzero⟩ := h
    simp [hfraction, hexponent, ← hdigits, hnegative, hzero]
  · have hisNone : (n.fraction.isNone && n.exponent.isNone) = false := by
      simpa [Option.isSome_iff_ne_none] using hparts
    simp [hisNone]

/-- **A short numeral becomes a whole number if and only if it denotes one**, and then the
rounding of that. -/
theorem exists_quantity_of_short (h : n.Short) : ∃ quantity, n.toQuantity? = some quantity ∧
    ∀ m, quantity.toBinary64.toInt? = some m ↔ ∃ k, n.Denotes k ∧ m = Binary64.roundedInt k := by
  cases h with
  | word hfraction hexponent hlt hnegative =>
    exact exists_quantity_of_word hfraction hexponent hlt hnegative
  | few hlt hlow hhigh =>
    by_cases hplain : n.fraction = none ∧ n.exponent = none ∧ (n.negative = true → 0 < n.digits)
    · obtain ⟨hfraction, hexponent, hnegative⟩ := hplain
      exact exists_quantity_of_word hfraction hexponent (by omega)
        fun hsign => ⟨hnegative hsign, by omega⟩
    · obtain ⟨y, hy, hwhole⟩ := exists_scaled (Binary64.isWhole_ofInt hlt) hlt hlow hhigh
      refine ⟨.real (if n.negative then y.neg else y), ?_, toInt?_signed_iff hwhole⟩
      rw [toQuantity?_of_not_plain hplain, toReal?_of_lt hlt, hy]
      rfl

/-- A numeral that is read as a whole number is a plain one and denotes it. -/
theorem denotes_of_toJson {k : Int} (h : n.toJson = integer k) :
    n.fraction = none ∧ n.exponent = none ∧ n.Denotes k ∧ (n.negative = true → 0 < n.digits) := by
  unfold toJson at h
  split at h
  · rename_i hfraction hexponent
    have hdigits : n.digits = Decimal.ofDigits n.whole := by simp [digits, hfraction]
    simp only at h
    split at h
    · cases h
    · rename_i hzero
      refine ⟨hfraction, hexponent, (denotes_iff_of_plain hfraction hexponent).mpr ?_, ?_⟩
      · rw [hdigits]
        cases h
        rfl
      · intro hnegative
        simp only [hnegative, Bool.true_and, beq_iff_eq] at hzero
        omega
  · cases h

/-- A numeral that is read as a word is short. -/
theorem short_of_toJson {k : Nat} (h : n.toJson = integer k) (hk : k < 2 ^ 64) : n.Short := by
  obtain ⟨hfraction, hexponent, hdenotes, hpos⟩ := denotes_of_toJson h
  have hvalue := (denotes_iff_of_plain hfraction hexponent).mp hdenotes
  cases hnegative : n.negative with
  | false =>
    rw [hnegative] at hvalue
    exact .word hfraction hexponent (by simp at hvalue; omega) (by simp [hnegative])
  | true =>
    have hdigits := hpos hnegative
    rw [hnegative] at hvalue
    simp only [if_true] at hvalue
    omega

end Numeral

end Json
end OpenScad
