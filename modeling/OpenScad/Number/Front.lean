/-
# The number at the front of a text

A value may be given as a text whose front spells a number. A pattern with two
ordered choices cuts the front off: an optional sign, then "Infinity" or a
numeral. The two words for the infinities are read here; every other front is
handed to the parser of whole numerals, and what that refuses is not a number. A
text without such a front is not a number either.

Key definitions: `Binary64.frontPattern`, `Binary64.readFront`, `Binary64.ofFront`.
-/
import OpenScad.Number.Binary64
import OpenScad.Text.Blank
import OpenScad.Token.Kind

namespace OpenScad
namespace Binary64

open TokenKind (digit oneOf power)

/-- A sign. -/
def signs : List Char := ['+', '-']

/-- Digits, an optional point, more digits and an optional power of ten. -/
def wholePattern : Pattern :=
  .sequence (.some digit)
    (.sequence (.optional (oneOf ['.'])) (.sequence (.many digit) (.optional power)))

/-- A point, digits and an optional power of ten. -/
def pointPattern : Pattern :=
  .sequence (oneOf ['.']) (.sequence (.some digit) (.optional power))

/-- The front of a text that a number is read from. -/
def frontPattern : Pattern :=
  .sequence (.optional (oneOf signs))
    (.either (.literal "Infinity".toList) (.either wholePattern pointPattern))

/-- The number that a front spells. -/
def readFront (front : List Char) : Binary64 :=
  if front.dropWhile signs.contains = "Infinity".toList then .infinite (front.head? == some '-')
  else (parse? front).getD .nan

/-- The number at the front of a text. -/
def ofFront (text : List Char) : Binary64 :=
  match frontPattern.found (Text.trimBlankStart text) with
  | some front => readFront front
  | none => .nan

end Binary64
end OpenScad
