/-
# Binary floating-point numbers of 64 bits

A finite number is a sign, an exponent field and a fraction field, so that
every combination is a number and no number has two forms. There is one "not a
number". Rounding is exact: a quotient of naturals goes to the nearest number,
and a half goes to the even neighbour.

Not covered: flags and other directions of rounding.

Key definitions: `Binary64`, `nearest`, `ofDecimal`, `toInt?`, `same`.
-/
import OpenScad.Number.Decimal

namespace OpenScad

/-- A number of the IEEE 754 format binary64. -/
inductive Binary64 where
  | nan
  | infinite (negative : Bool)
  | finite (negative : Bool) (exponent : Fin 2047) (fraction : Fin (Nat.pow 2 52))
  deriving DecidableEq, Repr

namespace Binary64

/-! ### The value of a finite number -/

/-- The whole significand: the fraction field with its hidden bit, which only the
least exponent lacks. -/
def significand (exponent : Fin 2047) (fraction : Fin (Nat.pow 2 52)) : Nat :=
  if exponent.val = 0 then fraction.val else Nat.pow 2 52 + fraction.val

/-- The power of two that the significand is multiplied by. -/
def scale (exponent : Fin 2047) : Int := (max exponent.val 1 : Nat) - 1075

/-- The magnitude as a quotient of naturals. -/
def ratio (exponent : Fin 2047) (fraction : Fin (Nat.pow 2 52)) : Nat × Nat :=
  (significand exponent fraction * Nat.pow 2 (scale exponent).toNat,
    Nat.pow 2 (-scale exponent).toNat)

/-- Positive or negative zero. -/
def zero (negative : Bool) : Binary64 := .finite negative 0 0

/-! ### Rounding -/

/-- The whole number nearest to a quotient; a half goes to the even neighbour. -/
def roundHalfEven (num den : Nat) : Nat :=
  let q := num / den
  let r := num % den
  if 2 * r < den then q
  else if den < 2 * r then q + 1
  else if q % 2 = 0 then q else q + 1

/-- The number whose exponent and fraction fields, read as one whole number, are
`bits`; too large a number is infinite. -/
def ofFields (negative : Bool) (bits : Nat) : Binary64 :=
  if h : bits / Nat.pow 2 52 < 2047 then
    .finite negative ⟨bits / Nat.pow 2 52, h⟩ ⟨bits % Nat.pow 2 52, Nat.mod_lt _ (by decide)⟩
  else .infinite negative

/-- The quotient `num / den` counted in units of `2 ^ power`, as a quotient. -/
def inUnits (num den : Nat) (power : Int) : Nat × Nat :=
  (num * Nat.pow 2 (-power).toNat, den * Nat.pow 2 power.toNat)

/-- The least power of two that may stand as the unit of the last place. -/
def leastPower : Int := -1074

/-- The unit of the last place for a positive quotient: the one that leaves a
significand of 53 bits, and never below the least. -/
def lastPlace (num den : Nat) : Int :=
  let guess := max ((Nat.log2 num : Int) - Nat.log2 den - 53) leastPower
  let (n, d) := inUnits num den guess
  if Nat.pow 2 53 * d ≤ n then guess + 1 else guess

/-- The number nearest to the quotient `num / den`, with the sign given. -/
def nearest (negative : Bool) (num den : Nat) : Binary64 :=
  if num = 0 then zero negative
  else
    let power := lastPlace num den
    let (n, d) := inUnits num den power
    ofFields negative ((power - leastPower).toNat * Nat.pow 2 52 + roundHalfEven n d)

/-- The number nearest to a decimal. Decimals far outside the range are settled by
their order of magnitude, so that no huge power is formed. -/
def ofDecimal (negative : Bool) (d : Decimal) : Binary64 :=
  if d.coefficient = 0 then zero negative
  else if 400 < d.exponent then .infinite negative
  else if d.exponent + Nat.log2 d.coefficient + 1 < -400 then zero negative
  else
    nearest negative (d.coefficient * Nat.pow 10 d.exponent.toNat)
      (Nat.pow 10 (-d.exponent).toNat)

/-- The number nearest to a whole number. -/
def ofInt (n : Int) : Binary64 := nearest (decide (n < 0)) n.natAbs 1

/-! ### Arithmetic -/

/-- The product, rounded. A zero times an infinity is not a number. -/
def mul : Binary64 → Binary64 → Binary64
  | .finite s e f, .finite s' e' f' =>
    let (n, d) := ratio e f
    let (n', d') := ratio e' f'
    nearest (s != s') (n * n') (d * d')
  | .infinite s, .infinite s' => .infinite (s != s')
  | .infinite s, .finite s' e f => if significand e f = 0 then .nan else .infinite (s != s')
  | .finite s e f, .infinite s' => if significand e f = 0 then .nan else .infinite (s != s')
  | .nan, _ => .nan
  | _, .nan => .nan

/-- The quotient, rounded. -/
def div : Binary64 → Binary64 → Binary64
  | .finite s e f, .finite s' e' f' =>
    if significand e' f' = 0 then
      if significand e f = 0 then .nan else .infinite (s != s')
    else
      let (n, d) := ratio e f
      let (n', d') := ratio e' f'
      nearest (s != s') (n * d') (d * n')
  | .infinite _, .infinite _ => .nan
  | .infinite s, .finite s' _ _ => .infinite (s != s')
  | .finite s _ _, .infinite s' => zero (s != s')
  | .nan, _ => .nan
  | _, .nan => .nan

/-- The number with the opposite sign. -/
def neg : Binary64 → Binary64
  | .nan => .nan
  | .infinite s => .infinite (!s)
  | .finite s e f => .finite (!s) e f

/-! ### Questions -/

/-- Whether the number is finite. -/
def isFinite : Binary64 → Bool
  | .finite .. => true
  | _ => false

/-- Whether the number is zero, of either sign. -/
def isZero : Binary64 → Bool
  | .finite _ e f => significand e f = 0
  | _ => false

/-- The whole number that a number is, if it is one. -/
def toInt? : Binary64 → Option Int
  | .finite negative e f =>
    let (n, d) := ratio e f
    if n % d = 0 then some (if negative then -(n / d : Nat) else (n / d : Nat)) else none
  | _ => none

/-- Equality of values: the two zeros are equal, and "not a number" equals itself. -/
def same (x y : Binary64) : Bool := decide (x = y) || (x.isZero && y.isZero)

/-! ### Reading -/

/-- A text that names an infinity or "not a number", in any case of its letters. -/
def named? (negative : Bool) (text : List Char) : Option Binary64 :=
  let word := text.map Char.toLower
  if word = "inf".toList ∨ word = "infinity".toList then some (.infinite negative)
  else if word = "nan".toList then some .nan
  else none

/-- The number that a whole text spells: an optional sign, then a numeral or a name. -/
def parse? (text : List Char) : Option Binary64 :=
  let signed := Decimal.scanSign text
  let negative := signed.1 == some true
  match Decimal.scan signed.2 with
  | some (d, []) => some (ofDecimal negative d)
  | some _ => none
  | none => named? negative signed.2

end Binary64
end OpenScad
