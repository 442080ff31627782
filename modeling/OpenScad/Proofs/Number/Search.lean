/-
# The search for a number at the front of a text

A pattern is searched for in order and not by length: the left of two choices
first, and a repetition as often as it goes. What comes behind the first digits
of a numeral can always be empty, so no repetition is ever shortened
(`Pattern.first_many_one`), and the search takes what the scanner of numerals
takes (`Binary64.first_numeral`).

Key theorems: `Pattern.first_many_one`, `Pattern.first_literal`, `Binary64.first_sign`,
`Binary64.first_power`, `Binary64.first_numeral`.
-/
import Mathlib.Data.List.DropRight
import OpenScad.Number.Front
import OpenScad.Proofs.Number.Numeral

namespace OpenScad

/-! ### The search for the first match -/

namespace Pattern

variable {α : Type} {next : List Char → Option α} {test : Char → Bool}

theorem repeated_one (h : ∀ s, (next s).isSome = true) : ∀ (n : Nat) (s : List Char),
    s.length ≤ n → repeated (one test).first next n s = next (s.dropWhile test)
  | 0, s, hn => by
    have hnil : s = [] := List.length_eq_zero_iff.mp (Nat.le_zero.mp hn)
    rw [hnil]
    rfl
  | n + 1, [], _ => by simp [repeated]
  | n + 1, c :: s, hn => by
    have hlength : s.length < (c :: s).length := Nat.lt_succ_self _
    have ih := repeated_one h n s (Nat.le_of_succ_le_succ hn)
    by_cases hc : test c = true
    · obtain ⟨x, hx⟩ := Option.isSome_iff_exists.mp (h (s.dropWhile test))
      rw [List.dropWhile_cons_of_pos hc]
      simp only [repeated, first, if_pos hc, if_pos hlength, ih, hx]
      rfl
    · rw [List.dropWhile_cons_of_neg hc]
      simp [repeated, hc]

/-- **A repeated character is taken as often as it stands there**, if what comes next cannot
fail. -/
theorem first_many_one (h : ∀ s, (next s).isSome = true) (s : List Char) :
    (many (one test)).first next s = next (s.dropWhile test) :=
  repeated_one h s.length s (Nat.le_refl _)

theorem first_some_one (h : ∀ s, (next s).isSome = true) (s : List Char) :
    (Pattern.some (one test)).first next s =
      if (s.takeWhile test).isEmpty then Option.none else next (s.dropWhile test) := by
  cases s with
  | nil => rfl
  | cons c s =>
    by_cases hc : test c = true
    · rw [List.takeWhile_cons_of_pos hc, List.dropWhile_cons_of_pos hc, ← first_many_one h]
      simp only [Pattern.some, first, if_pos hc]
      rfl
    · rw [List.takeWhile_cons_of_neg hc]
      simp only [Pattern.some, first, if_neg hc]
      rfl

theorem first_optional (a : Pattern) (s : List Char) :
    (optional a).first next s = (a.first next s <|> next s) := rfl

theorem first_literal (cs s : List Char) :
    (literal cs).first next s = if cs <+: s then next (s.drop cs.length) else Option.none := by
  induction cs generalizing s with
  | nil => simp
  | cons c cs ih =>
    cases s with
    | nil => simp
    | cons d s =>
      by_cases hd : d = c
      · simp [ih, hd]
      · simp [hd, Ne.symm hd]

end Pattern

namespace Binary64

open TokenKind (digit oneOf power)

/-! ### The search for a front -/

section Search

variable {α : Type} {next : List Char → Option α}

theorem first_oneOf (cs s : List Char) (c : Char) :
    (oneOf cs).first next (c :: s) = if c ∈ cs then next s else none := by
  simp

/-- A sign is taken if it is there, when what comes next fails at a sign. -/
theorem first_sign (h : ∀ c ∈ signs, ∀ s, next (c :: s) = none) (s : List Char) :
    (Pattern.optional (oneOf signs)).first next s = next (Decimal.scanSign s).2 := by
  rw [Pattern.first_optional]
  cases s with
  | nil => simp [Decimal.scanSign]
  | cons c s =>
    rw [first_oneOf]
    by_cases hc : c ∈ signs
    · have hscan : (Decimal.scanSign (c :: s)).2 = s := by
        have hsign : c = '+' ∨ c = '-' := by simpa [signs] using hc
        rcases hsign with rfl | rfl <;> rfl
      simp [h c hc s, hscan, hc]
    · have hscan : Decimal.scanSign (c :: s) = (none, c :: s) := by
        refine Decimal.scanSign_signText none ?_
        rintro d ⟨⟩
        simpa [signs] using hc
      simp [hscan, hc]

/-- The search takes what the scanner takes for a power of ten. -/
theorem first_power (h : ∀ s, (next s).isSome = true) (s : List Char) :
    (Pattern.optional power).first next s = next (Decimal.scanExponent s).2 := by
  have hsign : ∀ c ∈ signs, ∀ t, (Pattern.some digit).first next (c :: t) = none := by
    intro c hc t
    have hsigns : c = '+' ∨ c = '-' := by simpa [signs] using hc
    have hdigit : c.isDigit = false := by rcases hsigns with rfl | rfl <;> rfl
    rw [digit, Pattern.first_some_one h, List.takeWhile_cons_of_neg (by simp [hdigit])]
    rfl
  rw [Pattern.first_optional]
  cases s with
  | nil => simp [power, Decimal.scanExponent]
  | cons c rest =>
    by_cases hmark : c = 'e' ∨ c = 'E'
    · have hpower : power.first next (c :: rest) =
          if ((Decimal.scanSign rest).2.takeWhile Char.isDigit).isEmpty then none
          else next ((Decimal.scanSign rest).2.dropWhile Char.isDigit) := by
        have hmem : c ∈ ['e', 'E'] := by simpa using hmark
        rw [power, Pattern.first, first_oneOf, if_pos hmem, ← Pattern.first_some_one h]
        exact first_sign hsign rest
      rw [hpower]
      simp only [Decimal.scanExponent, if_pos hmark]
      split
      · rfl
      · obtain ⟨x, hx⟩ := Option.isSome_iff_exists.mp
          (h ((Decimal.scanSign rest).2.dropWhile Char.isDigit))
        rw [hx]
        rfl
    · simp [power, Decimal.scanExponent, hmark]

/-- What comes next behind the point, if there is one. -/
theorem first_point (h : ∀ s, (next s).isSome = true) (r : List Char) :
    (Pattern.optional (oneOf ['.'])).first next ('.' :: r) = next r := by
  obtain ⟨x, hx⟩ := Option.isSome_iff_exists.mp (h r)
  rw [Pattern.first_optional, first_oneOf, if_pos (List.mem_singleton.mpr rfl), hx]
  rfl

theorem first_no_point {s : List Char} (h : ∀ r, s ≠ '.' :: r) :
    (Pattern.optional (oneOf ['.'])).first next s = next s := by
  rw [Pattern.first_optional]
  cases s with
  | nil => simp
  | cons c s =>
    have hc : c ∉ ['.'] := fun hmem => h s (by rw [List.mem_singleton.mp hmem])
    rw [first_oneOf, if_neg hc]
    rfl

end Search

theorem map_scan (s : List Char) : (Decimal.scan s).map (·.2) =
    (Decimal.scanDigits s).map fun parts => (Decimal.scanExponent parts.2.2).2 := by
  cases h : Decimal.scanDigits s with
  | none => simp [Decimal.scan, h]
  | some parts =>
    obtain ⟨ds, fraction, behind⟩ := parts
    rw [Decimal.scan_of_scanDigits h]
    rfl

theorem isSome_first_power (s : List Char) :
    ((Pattern.optional power).first some s).isSome = true := by
  rw [first_power fun _ => rfl]
  rfl

/-- Behind the point and where it may be missing. -/
theorem first_tail (s : List Char) :
    (Pattern.sequence (.many digit) (.optional power)).first some s =
      some (Decimal.scanExponent (s.dropWhile Char.isDigit)).2 := by
  rw [Pattern.first, digit, Pattern.first_many_one isSome_first_power, first_power fun _ => rfl]

theorem isSome_first_tail (s : List Char) :
    ((Pattern.sequence (.many digit) (.optional power)).first some s).isSome = true := by
  rw [first_tail]
  rfl

theorem first_wholePattern (s : List Char) : wholePattern.first some s =
    if (s.takeWhile Char.isDigit).isEmpty then none
    else (Pattern.optional (oneOf ['.'])).first
      ((Pattern.sequence (.many digit) (.optional power)).first some)
      (s.dropWhile Char.isDigit) := by
  have htotal : ∀ t, ((Pattern.optional (oneOf ['.'])).first
      ((Pattern.sequence (.many digit) (.optional power)).first some) t).isSome = true := by
    intro t
    by_cases hpoint : ∃ r, t = '.' :: r
    · obtain ⟨r, rfl⟩ := hpoint
      rw [first_point isSome_first_tail]
      exact isSome_first_tail r
    · rw [first_no_point fun r hr => hpoint ⟨r, hr⟩]
      exact isSome_first_tail t
  rw [wholePattern, Pattern.first]
  exact Pattern.first_some_one htotal s

theorem first_pointPattern (r : List Char) : pointPattern.first some ('.' :: r) =
    if (r.takeWhile Char.isDigit).isEmpty then none
    else some (Decimal.scanExponent (r.dropWhile Char.isDigit)).2 := by
  rw [pointPattern, Pattern.first, first_oneOf, if_pos (List.mem_singleton.mpr rfl),
    Pattern.first, digit, Pattern.first_some_one isSome_first_power, first_power fun _ => rfl]

theorem first_pointPattern_of_ne {s : List Char} (h : ∀ r, s ≠ '.' :: r) :
    pointPattern.first some s = none := by
  cases s with
  | nil => rfl
  | cons c s =>
    have hc : c ∉ ['.'] := fun hmem => h s (by rw [List.mem_singleton.mp hmem])
    rw [pointPattern, Pattern.first, first_oneOf, if_neg hc]

/-- **The search takes what the scanner takes for a numeral.** -/
theorem first_numeral (s : List Char) :
    (Pattern.either wholePattern pointPattern).first some s = (Decimal.scan s).map (·.2) := by
  rw [map_scan, Pattern.first, first_wholePattern]
  have hself : s.takeWhile Char.isDigit = [] → s.dropWhile Char.isDigit = s := by
    intro hnone
    have hsplit := List.takeWhile_append_dropWhile (p := Char.isDigit) (l := s)
    rwa [hnone] at hsplit
  by_cases hpoint : ∃ r, s.dropWhile Char.isDigit = '.' :: r
  · obtain ⟨r, hr⟩ := hpoint
    rw [Decimal.scanDigits_point hr, hr, first_point isSome_first_tail, first_tail]
    by_cases hnone : s.takeWhile Char.isDigit = []
    · rw [← hself hnone, hr, first_pointPattern, ← hr, hself hnone, hnone]
      by_cases hfraction : (r.takeWhile Char.isDigit).isEmpty = true <;> simp [hfraction]
    · simp [hnone]
  · have hne : ∀ r, s.dropWhile Char.isDigit ≠ '.' :: r := fun r hr => hpoint ⟨r, hr⟩
    rw [Decimal.scanDigits_plain hne, first_no_point hne, first_tail]
    by_cases hnone : s.takeWhile Char.isDigit = []
    · rw [hself hnone] at hne
      rw [first_pointPattern_of_ne hne]
      simp [hnone]
    · have htwice : (s.dropWhile Char.isDigit).dropWhile Char.isDigit =
          s.dropWhile Char.isDigit := List.dropWhile_idempotent _ _
      simp [hnone, htwice]

end Binary64
end OpenScad
