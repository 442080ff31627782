/-
# The shortest decimal that reads back

Every finite number stands for the reals that round to it, an interval that
holds its ends when the significand is even. On each decimal grid, from coarse
to fine, only the two neighbours of the value need a look; the first grid on
which one of them lies in the interval gives the digits, the nearer of two.
Which of two equally near ones is chosen is part of the style of writing.

Key definitions: `Interval`, `Interval.pick?`, `shortest`, `display`.
-/
import OpenScad.Number.Binary64

namespace OpenScad

/-- A positive value with the reals that round to it, all as multiples of one
`1 / den`. -/
structure Interval where
  low : Nat
  value : Nat
  high : Nat
  den : Nat
  /-- Whether the ends belong to the interval. -/
  closed : Bool
  deriving Repr

namespace Interval

/-- Whether `n` steps of `step` lie in the interval, its bounds multiplied by
`factor`. -/
def holds (i : Interval) (factor step n : Nat) : Bool :=
  let x := n * step
  if i.closed then i.low * factor ≤ x && x ≤ i.high * factor
  else i.low * factor < x && x < i.high * factor

/-- Of two neighbours, the lower of which is `below`, the nearer one, where `down` and
`up` are the distances to them. -/
def nearer (tie : Tie) (below down up : Nat) : Nat :=
  if down < up then below
  else if up < down then below + 1
  else match tie with
    | .up => below + 1
    | .even => if below % 2 = 0 then below else below + 1

/-- The neighbour of the value on the grid of `10 ^ power` that lies in the interval,
the nearer if both do. -/
def pick? (i : Interval) (tie : Tie) (power : Int) : Option Nat :=
  let factor := Nat.pow 10 (-power).toNat
  let step := i.den * Nat.pow 10 power.toNat
  let below := i.value * factor / step
  let above := below + 1
  match i.holds factor step below, i.holds factor step above with
  | true, true =>
    some (nearer tie below (i.value * factor - below * step) (above * step - i.value * factor))
  | true, false => some below
  | false, true => some above
  | false, false => none

/-- The first hit on the grids `10 ^ power`, `10 ^ (power - 1)`, and so on. -/
def search (i : Interval) (tie : Tie) : Nat → Int → Decimal
  | 0, power => { coefficient := 0, exponent := power }
  | n + 1, power =>
    match i.pick? tie power with
    | some c => { coefficient := c, exponent := power }
    | none => search i tie n (power - 1)

end Interval

namespace Binary64

/-- The reals that round to a positive finite number. The gap below a power of two
is half the gap above it. -/
def interval (exponent : Fin 2047) (fraction : Fin (Nat.pow 2 52)) : Interval :=
  let m := 4 * significand exponent fraction
  let unit := scale exponent - 2
  let below := if fraction.val = 0 ∧ 1 < exponent.val then 1 else 2
  let factor := Nat.pow 2 unit.toNat
  { low := (m - below) * factor
    value := m * factor
    high := (m + 2) * factor
    den := Nat.pow 2 (-unit).toNat
    closed := significand exponent fraction % 2 == 0 }

/-- A power of ten above every real that rounds to the number. -/
def above (exponent : Fin 2047) (fraction : Fin (Nat.pow 2 52)) : Int :=
  (scale exponent + Nat.log2 (significand exponent fraction) + 2) * 30103 / 100000 + 1

/-- How many grids a search may need: seventeen digits always suffice, and the start
lies at most two grids above the first of them. -/
def searchLimit : Nat := 20

/-- The decimal with the fewest digits that reads back as the number, and of those
the nearest to it. -/
def shortest (tie : Tie) (exponent : Fin 2047) (fraction : Fin (Nat.pow 2 52)) : Decimal :=
  if significand exponent fraction = 0 then { coefficient := 0, exponent := 0 }
  else (interval exponent fraction).search tie searchLimit (above exponent fraction)

/-- The minus sign of a negative number. -/
def sign (negative : Bool) : List Char := if negative then ['-'] else []

/-- A finite number in a style. -/
def renderFinite (style : NumeralStyle) (negative : Bool) (exponent : Fin 2047)
    (fraction : Fin (Nat.pow 2 52)) : List Char :=
  sign negative ++ (shortest style.tie exponent fraction).render style

/-- Numbers in messages and coerced texts never use a power of ten, and a half goes up. -/
def plainStyle : NumeralStyle :=
  { tie := .up, positional := none, keepsPoint := false, plusSign := false }

/-- The text of a number in messages and coerced texts. -/
def display : Binary64 → String
  | .nan => "NaN"
  | .infinite negative => String.ofList (sign negative ++ "inf".toList)
  | .finite negative e f => String.ofList (renderFinite plainStyle negative e f)

end Binary64
end OpenScad
