/-
# Decimal numerals

A decimal is a whole coefficient and a power of ten. An unsigned numeral is
digits with an optional point and further digits, or a point and at least one
digit; either may carry an exponent, which counts only when it has a digit. A
style says where a written number takes a power of ten.

Key definitions: `Decimal`, `Decimal.scan`, `NumeralStyle`, `Decimal.render`.
-/
namespace OpenScad

/-- The number `coefficient * 10 ^ exponent`. -/
structure Decimal where
  coefficient : Nat
  exponent : Int
  deriving DecidableEq, Repr, Inhabited

namespace Decimal

/-! ### Reading -/

/-- The value of one decimal digit. -/
def digitValue (c : Char) : Nat := c.toNat - '0'.toNat

/-- The number that a run of decimal digits spells. -/
def ofDigits (digits : List Char) : Nat := digits.foldl (fun n c => 10 * n + digitValue c) 0

/-- A sign, if the text starts with one, as whether it is a minus, and the rest. -/
def scanSign : List Char → Option Bool × List Char
  | '+' :: rest => (some false, rest)
  | '-' :: rest => (some true, rest)
  | rest => (none, rest)

/-- An exponent at the start of a text, and the rest. A mark without a digit after
its sign is no exponent. -/
def scanExponent : List Char → Int × List Char
  | [] => (0, [])
  | c :: rest =>
    if c = 'e' ∨ c = 'E' then
      let signed := scanSign rest
      let digits := signed.2.takeWhile Char.isDigit
      if digits.isEmpty then (0, c :: rest)
      else
        let n : Int := ofDigits digits
        (if signed.1 = some true then -n else n, signed.2.dropWhile Char.isDigit)
    else (0, c :: rest)

/-- The digits on both sides of the point at the start of a text, and the rest. At
least one digit must be there. -/
def scanDigits (text : List Char) : Option (List Char × List Char × List Char) :=
  let whole := text.takeWhile Char.isDigit
  match text.dropWhile Char.isDigit with
  | '.' :: rest =>
    let fraction := rest.takeWhile Char.isDigit
    if whole.isEmpty && fraction.isEmpty then none
    else some (whole, fraction, rest.dropWhile Char.isDigit)
  | rest => if whole.isEmpty then none else some (whole, [], rest)

/-- The longest unsigned numeral at the start of a text, and the rest. -/
def scan (text : List Char) : Option (Decimal × List Char) := do
  let (whole, fraction, rest) ← scanDigits text
  let (power, rest) := scanExponent rest
  let coefficient := ofDigits (whole ++ fraction)
  return ({ coefficient, exponent := power - fraction.length }, rest)

/-- The same number without zeros at the end of its coefficient. -/
def normal (d : Decimal) : Decimal :=
  let digits := Nat.toDigits 10 d.coefficient
  let kept := (digits.reverse.dropWhile (· = '0')).reverse
  if kept.isEmpty then { coefficient := 0, exponent := 0 }
  else
    { coefficient := ofDigits kept
      exponent := d.exponent + (digits.length - kept.length : Nat) }

end Decimal

/-! ### Writing -/

/-- Which of two equally near decimals stands for a number. -/
inductive Tie where
  | up
  | even
  deriving DecidableEq, Repr

/-- How numbers are written: where with a power of ten, and in which form. -/
structure NumeralStyle where
  /-- Where the digits go when two decimals are equally near. -/
  tie : Tie
  /-- The least and greatest powers of ten of the first digit for which the numeral
  stays positional; `none` for all. -/
  positional : Option (Int × Int)
  /-- Whether a positional whole number keeps a point and a zero. -/
  keepsPoint : Bool
  /-- Whether a positive power carries a plus sign. -/
  plusSign : Bool
  deriving DecidableEq, Repr

namespace Decimal

/-- The digits of the coefficient, the most significant first. -/
def digits (d : Decimal) : List Char := Nat.toDigits 10 d.coefficient

/-- The power of ten of the first digit. -/
def leading (d : Decimal) : Int := d.exponent + d.digits.length - 1

/-- The numeral without a power of ten. -/
def renderPositional (keepsPoint : Bool) (d : Decimal) : List Char :=
  let ds := d.digits
  if 0 ≤ d.exponent then
    ds ++ List.replicate d.exponent.toNat '0' ++ (if keepsPoint then ['.', '0'] else [])
  else
    let places := d.exponent.natAbs
    if places < ds.length then
      ds.take (ds.length - places) ++ '.' :: ds.drop (ds.length - places)
    else
      ['0', '.'] ++ List.replicate (places - ds.length) '0' ++ ds

/-- The numeral as one digit, a fraction and a power of ten. -/
def renderScientific (plusSign : Bool) (d : Decimal) : List Char :=
  let fraction := match d.digits with
    | [] => []
    | [c] => [c]
    | c :: rest => c :: '.' :: rest
  let sign := if d.leading < 0 then ['-'] else if plusSign then ['+'] else []
  fraction ++ 'e' :: sign ++ Nat.toDigits 10 d.leading.natAbs

/-- The numeral in a style. -/
def render (style : NumeralStyle) (d : Decimal) : List Char :=
  match style.positional with
  | none => d.renderPositional style.keepsPoint
  | some (least, greatest) =>
    if least ≤ d.leading ∧ d.leading ≤ greatest then d.renderPositional style.keepsPoint
    else d.renderScientific style.plusSign

end Decimal
end OpenScad
