/-
# What plain YAML scalars stand for

A scalar without quotes may be read as null, as a truth value, or as a number.
Whole numbers are decimal, or have one of three marks for their base; digits
with a needless leading zero are a text. Infinities and "not a number" have
names that start with a point.

Key definitions: `Yaml.boolean?`, `Yaml.unsigned?`, `Yaml.isText`.
-/
import OpenScad.Number.Binary64

namespace OpenScad
namespace Yaml

/-- Whether a scalar is a spelling of null. -/
def isNull (text : List Char) : Bool :=
  text = ['n', 'u', 'l', 'l'] || text = ['N', 'u', 'l', 'l'] || text = ['N', 'U', 'L', 'L'] ||
    text = ['~']

/-- The truth value that a scalar spells. -/
def boolean? (text : List Char) : Option Bool :=
  if text = ['t', 'r', 'u', 'e'] ∨ text = ['T', 'r', 'u', 'e'] ∨ text = ['T', 'R', 'U', 'E'] then
    some true
  else if text = ['f', 'a', 'l', 's', 'e'] ∨ text = ['F', 'a', 'l', 's', 'e'] ∨
      text = ['F', 'A', 'L', 'S', 'E'] then
    some false
  else none

/-! ### Whole numbers -/

/-- The value of a digit in a base up to sixteen, in either case. -/
def digitIn? (base : Nat) (c : Char) : Option Nat :=
  let value? :=
    if '0' ≤ c ∧ c ≤ '9' then some (c.toNat - '0'.toNat)
    else if 'a' ≤ c ∧ c ≤ 'f' then some (c.toNat - 'a'.toNat + 10)
    else if 'A' ≤ c ∧ c ≤ 'F' then some (c.toNat - 'A'.toNat + 10)
    else none
  value?.filter (· < base)

/-- The number that digits of a base spell; at least one digit is needed. -/
def digits? (base : Nat) (text : List Char) : Option Nat :=
  if text.isEmpty then none
  else text.foldlM (fun n c => (digitIn? base c).map (base * n + ·)) 0

/-- A text without one plus sign at its front. -/
def withoutPlus : List Char → List Char
  | '+' :: rest => rest
  | text => text

/-- Whether a text is a zero followed by more digits, after an optional sign. -/
def isPadded (text : List Char) : Bool :=
  match (Decimal.scanSign text).2 with
  | '0' :: c :: rest => (c :: rest).all Char.isDigit
  | _ => false

/-- The magnitude of a number without sign, in the base that its mark gives. `text` is
the whole scalar. -/
def magnitude? (text body : List Char) : Option Nat :=
  match body with
  | '0' :: 'x' :: rest => digits? 16 rest
  | '0' :: 'o' :: rest => digits? 8 rest
  | '0' :: 'b' :: rest => digits? 2 rest
  | body => if isPadded text then none else digits? 10 body

/-- The whole number below a limit that a scalar spells, with an optional plus sign. -/
def unsigned? (limit : Nat) (text : List Char) : Option Nat :=
  (magnitude? text (withoutPlus text)).filter (· < limit)

/-- Whether a scalar spells a negative whole number that fits in 128 bits, or a minus
zero. -/
def isNegative : List Char → Bool
  | '-' :: rest => ((magnitude? ('-' :: rest) rest).filter (· ≤ Nat.pow 2 127)).isSome
  | _ => false

/-! ### Other numbers -/

/-- Whether a scalar names an infinity or "not a number". -/
def isNamedNumber (text : List Char) : Bool :=
  let infinities := [".inf".toList, ".Inf".toList, ".INF".toList]
  let bare := match text with
    | '-' :: rest => rest
    | text => withoutPlus text
  infinities.contains bare || [".nan".toList, ".NaN".toList, ".NAN".toList].contains text

/-- Whether a scalar spells a finite number. -/
def isFiniteNumber (text : List Char) : Bool :=
  let body := withoutPlus text
  let signedTwice := text ≠ body && (Decimal.scanSign body).1.isSome
  !signedTwice && ((Binary64.parse? body).any Binary64.isFinite)

/-! ### Texts -/

/-- Whether a plain scalar is read as the text that it is. -/
def isText (text : List Char) : Bool :=
  !(text.isEmpty || isNull text || (boolean? text).isSome || isPadded text ||
    (unsigned? (Nat.pow 2 128) text).isSome || isNegative text || isNamedNumber text ||
    isFiniteNumber text)

end Yaml
end OpenScad
