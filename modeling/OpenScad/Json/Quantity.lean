/-
# Numbers of JSON texts as machine numbers

A numeral without fraction and exponent is a whole number of 64 bits if it fits.
Any other one becomes a floating-point number: its leading digits, as many as
fit in 64 bits, are rounded once, and the power of ten is then applied by
multiplication or division, in steps if it is far down. The result can differ
from the nearest number in its last bits. A number too large is refused.

Key definitions: `Json.Quantity`, `Json.Numeral.toQuantity?`.
-/
import OpenScad.Json.Scan
import OpenScad.Word

namespace OpenScad
namespace Json

/-- A number as it reaches a field. -/
inductive Quantity where
  | natural (n : Nat)
  | negative (n : Int)
  | real (x : Binary64)
  deriving DecidableEq, Repr

/-- Digits appended to a number while it stays below the limit, and how many were taken. -/
def takeFitting : Nat → List Char → Nat × Nat
  | n, [] => (n, 0)
  | n, c :: rest =>
    let next := 10 * n + Decimal.digitValue c
    if next < wordLimit then
      let (m, taken) := takeFitting next rest
      (m, taken + 1)
    else (n, 0)

/-- The power of ten as a floating-point number. -/
def powerOfTen (n : Nat) : Binary64 := .ofDecimal false { coefficient := 1, exponent := n }

/-- The greatest power of ten that is a finite number. -/
def greatestPower : Nat := 308

/-- A positive number times a power of ten; none if it is too large. A power too far
down is applied in steps of the greatest one; after three of them nothing is left. -/
def scaled (x : Binary64) (power : Int) : Nat → Option Binary64
  | 0 => some x
  | steps + 1 =>
    if power.natAbs ≤ greatestPower then
      if 0 ≤ power then
        let y := x.mul (powerOfTen power.natAbs)
        if y.isFinite then some y else none
      else some (x.div (powerOfTen power.natAbs))
    else if x.isZero then some x
    else if 0 ≤ power then none
    else scaled (x.div (powerOfTen greatestPower)) (power + greatestPower) steps

/-- The floating-point number of a numeral; none if it is too large. -/
def Numeral.toReal? (n : Numeral) : Option Binary64 := do
  let (whole, taken) := takeFitting 0 n.whole
  let (digits, places) := takeFitting whole (n.fraction.getD [])
  let power : Int := (n.whole.length - taken : Nat) - places + n.exponent.getD 0
  let x ← scaled (.ofInt digits) power 5
  return if n.negative then x.neg else x

/-- The number of a numeral; none if it is too large. A minus zero is not whole. -/
def Numeral.toQuantity? (n : Numeral) : Option Quantity :=
  let whole := Decimal.ofDigits n.whole
  if n.fraction.isNone && n.exponent.isNone then
    if !n.negative && whole < wordLimit then some (.natural whole)
    else if n.negative && 0 < whole && 2 * whole ≤ wordLimit then some (.negative (-whole))
    else n.toReal?.map .real
  else n.toReal?.map .real

/-- How a message speaks of a number. -/
def Quantity.describe : Quantity → String
  | natural n => "integer \x60" ++ toString n ++ "\x60"
  | negative n => "integer \x60" ++ toString n ++ "\x60"
  | real x => "floating point \x60" ++ (Document.real x).jsonText .compact ++ "\x60"

end Json
end OpenScad
