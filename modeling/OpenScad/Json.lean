/-
# JSON texts

A JSON value keeps the order of its members and knows whether a number was
written as a whole one. It is written compactly, or with every item and member
on a line of its own; empty lists and objects stay on one line either way.

Strings escape the quote, the backslash and the controls below the space, and
keep every other character as it is.

Key definitions: `Json`, `Json.Layout`, `Json.render`, `Document.toJson`,
`Document.jsonText`.
-/
import OpenScad.Document

namespace OpenScad

/-- A JSON value. -/
inductive Json where
  | null
  | boolean (value : Bool)
  | integer (value : Int)
  | decimal (negative : Bool) (value : Decimal)
  | text (value : List Char)
  | list (items : List Json)
  | object (members : List (List Char × Json))
  deriving Repr

/-- How a JSON text is laid out: on one line, or with line breaks and some blanks a
level. -/
inductive Json.Layout where
  | compact
  | pretty (indent : Nat)
  deriving DecidableEq, Repr

namespace Json

/-! ### Strings and numbers -/

/-- Two digits in base sixteen, lower case. -/
def hexPair (n : Nat) : List Char := [Nat.digitChar (n / 16 % 16), Nat.digitChar (n % 16)]

/-- How one character stands inside a JSON string. -/
def escapeChar (c : Char) : List Char :=
  if c = '"' then ['\\', '"']
  else if c = '\\' then ['\\', '\\']
  else if c = '\x08' then ['\\', 'b']
  else if c = '\t' then ['\\', 't']
  else if c = '\n' then ['\\', 'n']
  else if c = '\x0c' then ['\\', 'f']
  else if c = '\r' then ['\\', 'r']
  else if c.toNat < 0x20 then ['\\', 'u', '0', '0'] ++ hexPair c.toNat
  else [c]

/-- A JSON string. -/
def renderText (text : List Char) : List Char := '"' :: (text.flatMap escapeChar ++ ['"'])

/-- Numbers other than whole ones keep a point or a power of ten, and small powers
stay positional. -/
def numeralStyle : NumeralStyle :=
  { tie := .even, positional := some (-5, 15), keepsPoint := true, plusSign := true }

/-- A whole number. -/
def renderInteger (n : Int) : List Char :=
  (if n < 0 then ['-'] else []) ++ Nat.toDigits 10 n.natAbs

/-- A number that is not written as a whole one. -/
def renderDecimal (negative : Bool) (d : Decimal) : List Char :=
  (if negative then ['-'] else []) ++ d.render numeralStyle

/-! ### Values -/

namespace Layout

/-- What stands before an item at a depth: nothing, or a line break and blanks. -/
def gap (depth : Nat) : Layout → List Char
  | compact => []
  | pretty indent => '\n' :: List.replicate (depth * indent) ' '

/-- What stands between a member's name and its value. -/
def colon : Layout → List Char
  | compact => [':']
  | pretty _ => [':', ' ']

end Layout

mutual

/-- Writes a value that stands at a depth in front of a tail. -/
def writeAt (layout : Layout) (depth : Nat) : Json → List Char → List Char
  | null, tail => 'n' :: 'u' :: 'l' :: 'l' :: tail
  | boolean value, tail => (toString value).toList ++ tail
  | integer n, tail => renderInteger n ++ tail
  | decimal negative d, tail => renderDecimal negative d ++ tail
  | text value, tail => renderText value ++ tail
  | list [], tail => '[' :: ']' :: tail
  | list (item :: items), tail =>
    '[' :: (layout.gap (depth + 1) ++ writeAt layout (depth + 1) item
      (writeItems layout (depth + 1) items (layout.gap depth ++ ']' :: tail)))
  | object [], tail => '\x7b' :: '\x7d' :: tail
  | object ((name, value) :: members), tail =>
    '\x7b' :: (layout.gap (depth + 1) ++ renderText name ++ layout.colon ++
      writeAt layout (depth + 1) value
        (writeMembers layout (depth + 1) members (layout.gap depth ++ '\x7d' :: tail)))

/-- Writes the items after the first, each behind a comma, in front of a tail. -/
def writeItems (layout : Layout) (depth : Nat) : List Json → List Char → List Char
  | [], tail => tail
  | item :: items, tail =>
    ',' :: (layout.gap depth ++
      writeAt layout depth item (writeItems layout depth items tail))

/-- Writes the members after the first, each behind a comma, in front of a tail. -/
def writeMembers (layout : Layout) (depth : Nat) :
    List (List Char × Json) → List Char → List Char
  | [], tail => tail
  | (name, value) :: members, tail =>
    ',' :: (layout.gap depth ++ renderText name ++ layout.colon ++
      writeAt layout depth value (writeMembers layout depth members tail))

end

/-- The text of a value. -/
def render (layout : Layout) (value : Json) : List Char := writeAt layout 0 value []

end Json

namespace Document

/-- The value of a number that is not written as a whole one. JSON has no infinities and
no "not a number": they become null. -/
def realToJson : Binary64 → Json
  | .finite negative e f => .decimal negative (Binary64.shortest Json.numeralStyle.tie e f)
  | _ => .null

mutual

/-- The JSON value of a document. -/
def toJson : Document → Json
  | null => .null
  | boolean value => .boolean value
  | integer n => .integer n
  | real x => realToJson x
  | text value => .text value.toList
  | list items => .list (toJsonItems items)
  | record members => .object (toJsonMembers members)

/-- The JSON values of documents. -/
def toJsonItems : List Document → List Json
  | [] => []
  | item :: items => toJson item :: toJsonItems items

/-- The JSON members of a record. -/
def toJsonMembers : List (String × Document) → List (List Char × Json)
  | [] => []
  | (name, value) :: members => (name.toList, toJson value) :: toJsonMembers members

end

/-- The JSON text of a document. -/
def jsonText (layout : Json.Layout) (document : Document) : String :=
  String.ofList (document.toJson.render layout)

end Document
end OpenScad
