/-
# Tokens of JSON texts

One token at a time is read from the front of a text, after blanks. A numeral
has no needless leading zero and at least one digit in every part. A string
holds no control below the space; an escape by code stands for a unit of
sixteen bits, and two units may make up one character.

Key definitions: `Json.Numeral`, `Json.Token`, `Json.next`, `Json.skipBlanks`.
-/
import OpenScad.Json

namespace OpenScad
namespace Json

/-! ### Numerals -/

/-- The parts of a numeral as they are written. -/
structure Numeral where
  negative : Bool
  whole : List Char
  fraction : Option (List Char)
  exponent : Option Int
  deriving DecidableEq, Repr

/-- The digits at the front of a text, and the rest. -/
def scanDigits (text : List Char) : List Char × List Char :=
  (text.takeWhile Char.isDigit, text.dropWhile Char.isDigit)

/-- The whole part: a zero alone, or digits that start with another one. -/
def scanWhole (text : List Char) : Option (List Char × List Char) :=
  match scanDigits text with
  | ([], _) => none
  | ('0' :: _ :: _, _) => none
  | (digits, rest) => some (digits, rest)

/-- The fraction, which a point announces. -/
def scanFraction : List Char → Option (Option (List Char) × List Char)
  | '.' :: rest =>
    match scanDigits rest with
    | ([], _) => none
    | (digits, rest) => some (some digits, rest)
  | rest => some (none, rest)

/-- The exponent, which a letter announces. -/
def scanPower : List Char → Option (Option Int × List Char)
  | [] => some (none, [])
  | c :: rest =>
    if c = 'e' ∨ c = 'E' then
      let signed := Decimal.scanSign rest
      match scanDigits signed.2 with
      | ([], _) => none
      | (digits, rest) =>
        let n : Int := Decimal.ofDigits digits
        some (some (if signed.1 = some true then -n else n), rest)
    else some (none, c :: rest)

/-- A numeral after its minus sign. -/
def scanNumeral (negative : Bool) (text : List Char) : Option (Numeral × List Char) := do
  let (whole, rest) ← scanWhole text
  let (fraction, rest) ← scanFraction rest
  let (exponent, rest) ← scanPower rest
  return ({ negative, whole, fraction, exponent }, rest)

/-! ### Strings -/

/-- One element of a string: a character, or a code of sixteen bits from an escape. -/
inductive Unit16 where
  | char (c : Char)
  | code (n : Nat)
  deriving DecidableEq, Repr

/-- The value of a digit in base sixteen, in either case. -/
def hexValue? (c : Char) : Option Nat :=
  if '0' ≤ c ∧ c ≤ '9' then some (c.toNat - '0'.toNat)
  else if 'a' ≤ c ∧ c ≤ 'f' then some (c.toNat - 'a'.toNat + 10)
  else if 'A' ≤ c ∧ c ≤ 'F' then some (c.toNat - 'A'.toNat + 10)
  else none

/-- The code that four digits spell. -/
def hexCode? (a b c d : Char) : Option Nat := do
  return (((← hexValue? a) * 16 + (← hexValue? b)) * 16 + (← hexValue? c)) * 16 + (← hexValue? d)

/-- The character that a letter after a backslash stands for. -/
def escaped? (c : Char) : Option Char :=
  match c with
  | '"' => some '"'
  | '\\' => some '\\'
  | '/' => some '/'
  | 'b' => some '\x08'
  | 'f' => some '\x0c'
  | 'n' => some '\n'
  | 'r' => some '\r'
  | 't' => some '\t'
  | _ => none

/-- The elements of a string up to its closing quote, and the rest. -/
def scanUnits : List Char → Option (List Unit16 × List Char)
  | [] => none
  | '"' :: rest => some ([], rest)
  | '\\' :: 'u' :: a :: b :: c :: d :: rest => do
    let code ← hexCode? a b c d
    let (units, rest) ← scanUnits rest
    return (.code code :: units, rest)
  | '\\' :: c :: rest => do
    let char ← escaped? c
    let (units, rest) ← scanUnits rest
    return (.char char :: units, rest)
  | c :: rest =>
    if c.toNat < 0x20 ∨ c = '\\' then none
    else do
      let (units, rest) ← scanUnits rest
      return (.char c :: units, rest)

/-- Whether a code is the first half of a pair. -/
def isLead (n : Nat) : Bool := 0xD800 ≤ n && n < 0xDC00

/-- Whether a code is the second half of a pair. -/
def isTrail (n : Nat) : Bool := 0xDC00 ≤ n && n < 0xE000

/-- The characters of a string; none if half a pair stands alone. -/
def joinUnits : List Unit16 → Option (List Char)
  | [] => some []
  | .char c :: units => return c :: (← joinUnits units)
  | .code n :: .code m :: units =>
    if isLead n && isTrail m then
      return Char.ofNat (0x10000 + (n - 0xD800) * 0x400 + (m - 0xDC00)) :: (← joinUnits units)
    else if isLead n || isTrail n then none
    else return Char.ofNat n :: (← joinUnits (.code m :: units))
  | .code n :: units =>
    if isLead n || isTrail n then none else return Char.ofNat n :: (← joinUnits units)

/-! ### Tokens -/

/-- A token of a JSON text. -/
inductive Token where
  | openBrace
  | closeBrace
  | openBracket
  | closeBracket
  | colon
  | comma
  | null
  | boolean (value : Bool)
  | number (value : Numeral)
  | text (units : List Unit16)
  deriving DecidableEq, Repr

/-- Whether a character may stand between tokens. -/
def isBlank (c : Char) : Bool := c = ' ' || c = '\t' || c = '\n' || c = '\r'

/-- A text without its leading blanks. -/
def skipBlanks (text : List Char) : List Char := text.dropWhile isBlank

/-- The rest of a text after a word. -/
def afterWord? (word text : List Char) : Option (List Char) :=
  if word.isPrefixOf text then some (text.drop word.length) else none

/-- The token that starts with a character, and the rest. -/
def tokenAt (c : Char) (rest : List Char) : Option (Token × List Char) :=
  match c with
  | '\x7b' => some (.openBrace, rest)
  | '\x7d' => some (.closeBrace, rest)
  | '[' => some (.openBracket, rest)
  | ']' => some (.closeBracket, rest)
  | ':' => some (.colon, rest)
  | ',' => some (.comma, rest)
  | 'n' => (afterWord? "ull".toList rest).map fun rest => (.null, rest)
  | 't' => (afterWord? "rue".toList rest).map fun rest => (.boolean true, rest)
  | 'f' => (afterWord? "alse".toList rest).map fun rest => (.boolean false, rest)
  | '"' => (scanUnits rest).map fun (units, rest) => (.text units, rest)
  | '-' => (scanNumeral true rest).map fun (n, rest) => (.number n, rest)
  | c => (scanNumeral false (c :: rest)).map fun (n, rest) => (.number n, rest)

/-- The first token of a text, and the rest; none at the end of the text and where no
token can start. -/
def next (text : List Char) : Option (Token × List Char) :=
  match skipBlanks text with
  | [] => none
  | c :: rest => tokenAt c rest

end Json
end OpenScad
