/-
# Reading JSON values

A value is read from the front of a text by its first token. The bodies of lists
and objects are items or members between commas, none after the last. Reading a
value that nobody asks for only checks its form, so that its strings may hold
half a pair.

Key definitions: `Json.readValue`, `Json.read?`, `Json.skipValue`.
-/
import OpenScad.Json.Scan

namespace OpenScad
namespace Json

/-- The number that a numeral spells. A minus zero is not a whole number. -/
def Numeral.toJson (n : Numeral) : Json :=
  match n.fraction, n.exponent with
  | none, none =>
    let whole := Decimal.ofDigits n.whole
    if n.negative && whole == 0 then .decimal true { coefficient := 0, exponent := 0 }
    else .integer (if n.negative then -(whole : Int) else whole)
  | fraction, exponent =>
    let fraction := fraction.getD []
    .decimal n.negative
      { coefficient := Decimal.ofDigits (n.whole ++ fraction)
        exponent := exponent.getD 0 - fraction.length : Decimal }.normal

/-- How the elements of a string become its characters. -/
abbrev Joining := List Unit16 → Option (List Char)

/-- The string at the front of a text. -/
def readText (join : Joining) (input : List Char) : Option (List Char × List Char) :=
  match next input with
  | some (.text units, rest) => (join units).map fun chars => (chars, rest)
  | _ => none

/-- The rest of a text after a token. -/
def expect (token : Token) (input : List Char) : Option (List Char) :=
  match next input with
  | some (found, rest) => if found = token then some rest else none
  | none => none

mutual

/-- The value at the front of a text, and the rest. The count bounds the nesting. -/
def readValue (join : Joining) : Nat → List Char → Option (Json × List Char)
  | 0, _ => none
  | n + 1, input => do
    let (token, rest) ← next input
    match token with
    | .null => return (null, rest)
    | .boolean value => return (boolean value, rest)
    | .number value => return (value.toJson, rest)
    | .text units => return (text (← join units), rest)
    | .openBracket =>
      match next rest with
      | some (.closeBracket, rest) => return (list [], rest)
      | _ => (readItems join n rest).map fun (items, rest) => (list items, rest)
    | .openBrace =>
      match next rest with
      | some (.closeBrace, rest) => return (object [], rest)
      | _ => (readMembers join n rest).map fun (members, rest) => (object members, rest)
    | _ => none

/-- The items of a list up to its closing bracket, and the rest. -/
def readItems (join : Joining) : Nat → List Char → Option (List Json × List Char)
  | 0, _ => none
  | n + 1, input => do
    let (item, rest) ← readValue join n input
    match next rest with
    | some (.closeBracket, rest) => return ([item], rest)
    | some (.comma, rest) =>
      let (items, rest) ← readItems join n rest
      return (item :: items, rest)
    | _ => none

/-- The members of an object up to its closing brace, and the rest. -/
def readMembers (join : Joining) : Nat → List Char → Option (List (List Char × Json) × List Char)
  | 0, _ => none
  | n + 1, input => do
    let (name, rest) ← readText join input
    let rest ← expect .colon rest
    let (value, rest) ← readValue join n rest
    match next rest with
    | some (.closeBrace, rest) => return ([(name, value)], rest)
    | some (.comma, rest) =>
      let (members, rest) ← readMembers join n rest
      return ((name, value) :: members, rest)
    | _ => none

end

/-- The rest of a text after a value that nobody asks for. -/
def skipValue (input : List Char) : Option (List Char) :=
  (readValue (fun _ => some []) (input.length + 1) input).map (·.2)

end Json
end OpenScad
