/-
# Digits of numbers

A run of digits and the number that it spells: the digits of a number spell it
again and do not start with a needless zero, and zeros at the end of a
coefficient count for nothing against the power of ten (`Decimal.normal_shift`).

Key theorems: `Decimal.ofDigits_toDigits`, `Decimal.ofDigits_append`,
`Decimal.head?_toDigits`, `Decimal.normal_shift`.
-/
import Mathlib.Data.Nat.Digits.Lemmas
import OpenScad.Number.Decimal

namespace OpenScad
namespace Decimal

theorem ofDigits_toDigits (n : Nat) : ofDigits (Nat.toDigits 10 n) = n :=
  Nat.ofDigitChars_ten_toDigits

theorem ofDigits_append (ds es : List Char) :
    ofDigits (ds ++ es) = 10 ^ es.length * ofDigits ds + ofDigits es := by
  change Nat.ofDigitChars 10 (ds ++ es) 0 = _
  rw [Nat.ofDigitChars_append, Nat.ofDigitChars_eq_ofDigitChars_zero]
  rfl

theorem ofDigits_zeros (k : Nat) : ofDigits (List.replicate k '0') = 0 := by
  change Nat.ofDigitChars 10 (List.replicate k '0') 0 = 0
  rw [Nat.ofDigitChars_replicate_zero, Nat.mul_zero]

theorem isDigit_of_mem_toDigits {n : Nat} {c : Char} (h : c ∈ Nat.toDigits 10 n) :
    c.isDigit = true :=
  Nat.isDigit_of_mem_toDigits (by decide) (by decide) h

/-- The digits of a positive number do not start with a zero. -/
theorem head?_toDigits {n : Nat} (h : 0 < n) : (Nat.toDigits 10 n).head? ≠ some '0' := by
  induction n using Nat.strongRecOn with
  | _ n ih =>
    by_cases hn : n < 10
    · rw [Nat.toDigits_of_lt_base hn]
      intro hzero
      have := Nat.zero_eq_digitChar.mp (Option.some.inj hzero).symm
      omega
    · rw [Nat.toDigits_of_base_le (by decide) (Nat.not_lt.mp hn)]
      rw [List.head?_append_of_ne_nil _ Nat.toDigits_ne_nil]
      exact ih (n / 10) (by omega) (by omega)

/-- A zero behind the digits of a positive number multiplies it by ten. -/
theorem toDigits_mul_pow {c : Nat} (h : 0 < c) (k : Nat) :
    Nat.toDigits 10 (c * 10 ^ k) = Nat.toDigits 10 c ++ List.replicate k '0' := by
  induction k with
  | zero => simp
  | succ k ih =>
    have hpos : 0 < c * 10 ^ k := Nat.mul_pos h (Nat.pow_pos (by decide))
    have hten := Nat.toDigits_append_toDigits (b := 10) (d := 0) (by decide) hpos (by decide)
    rw [Nat.pow_succ, show c * (10 ^ k * 10) = 10 * (c * 10 ^ k) + 0 by ring, ← hten, ih,
      List.replicate_succ', Nat.toDigits_zero, List.append_assoc]

theorem normal_zero (e : Int) :
    normal { coefficient := 0, exponent := e } = { coefficient := 0, exponent := 0 } := by
  simp [normal, Nat.toDigits_zero]

/-- Moving zeros from the coefficient to the power of ten changes nothing. -/
theorem normal_shift (c k : Nat) (e : Int) :
    normal { coefficient := c * 10 ^ k, exponent := e - k } =
      normal { coefficient := c, exponent := e } := by
  rcases Nat.eq_zero_or_pos c with rfl | hc
  · rw [Nat.zero_mul, normal_zero, normal_zero]
  · have hkept : (Nat.toDigits 10 (c * 10 ^ k)).reverse.dropWhile (· = '0') =
        (Nat.toDigits 10 c).reverse.dropWhile (· = '0') := by
      rw [toDigits_mul_pow hc, List.reverse_append, List.reverse_replicate]
      exact List.dropWhile_append_of_pos fun a ha => by
        simpa using List.eq_of_mem_replicate ha
    have hle : ((Nat.toDigits 10 c).reverse.dropWhile (· = '0')).length ≤
        (Nat.toDigits 10 c).length := by
      simpa using (List.dropWhile_suffix (l := (Nat.toDigits 10 c).reverse) (· = '0')).length_le
    unfold normal
    simp only [hkept]
    split
    · rfl
    · rw [toDigits_mul_pow hc, List.length_append, List.length_replicate, List.length_reverse]
      congr 1
      omega

end Decimal
end OpenScad
