/-
# Positions and tokens from JSON texts

The coordinates of a serialized position may be any numbers; they must be whole
and not below their least values, and beyond 64 bits they stay at the greatest
word. Those of a token must be words of 64 bits and are not checked further.
Both accept "col" for "column".

Key definitions: `Position.ofJson`, `Token.ofJson`.
-/
import OpenScad.Json.Record
import OpenScad.Token

namespace OpenScad

namespace Position

/-- The record of a position. -/
def shape : Json.Shape :=
  { title := "struct RawPosition"
    slots :=
      [{ name := "line", want := .real },
       { name := "column", otherName := some "col", want := .real },
       { name := "offset", want := .real }] }

/-- The coordinate that a number stands for. -/
def coordinate (axis : Axis) (x : Binary64) : Except NodeError Nat :=
  match x.toInt? with
  | some n =>
    if (axis.least : Int) ≤ n then .ok (min n.toNat (wordLimit - 1))
    else .error (.badCoordinate axis x.display)
  | none => .error (.badCoordinate axis x.display)

/-- The position with the given numbers as coordinates. -/
def ofNumbers (line column offset : Binary64) : Except NodeError Position := do
  ofCoordinates (← coordinate .line line) (← coordinate .column column)
    (← coordinate .offset offset)

/-- The number in a slot. -/
def number (contents : Json.Contents) (name : String) : Binary64 :=
  match contents.lookup name with
  | some (.real x) => x
  | _ => .nan

/-- The position that a JSON text gives. -/
def ofJson (input : List Char) : Except Json.RecordError Position :=
  Json.decode shape
    (fun contents =>
      (ofNumbers (number contents "line") (number contents "column")
        (number contents "offset")).mapError .refused)
    input

end Position

namespace Token

/-- The record of a token. -/
def shape : Json.Shape :=
  { title := "struct Token"
    slots :=
      [{ name := "value", want := .text },
       { name := "text", want := .optionalText },
       { name := "line", want := .whole },
       { name := "column", otherName := some "col", want := .whole },
       { name := "offset", want := .whole }] }

/-- The text in a slot. -/
def textIn (contents : Json.Contents) (name : String) : Option String :=
  match contents.lookup name with
  | some (.text value) => some value
  | _ => none

/-- The whole number in a slot. -/
def wholeIn (contents : Json.Contents) (name : String) : Nat :=
  match contents.lookup name with
  | some (.whole n) => n
  | _ => 0

/-- The token that a JSON text gives. -/
def ofJson (input : List Char) : Except Json.RecordError Token :=
  Json.decode shape
    (fun contents => .ok
      { value := (textIn contents "value").getD ""
        text := textIn contents "text"
        line := wholeIn contents "line"
        column := wholeIn contents "column"
        offset := wholeIn contents "offset" })
    input

end Token
end OpenScad
