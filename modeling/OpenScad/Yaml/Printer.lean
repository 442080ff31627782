/-
# Writing documents as YAML

A record has a line for each member, its parts two columns further in. The
items of a list stand in the column of the list's own name, each behind a dash.
An empty list is written between brackets. A block of text starts two columns
further in than the name it belongs to, and says so itself if it starts with a
space or a line break; its mark tells how many line breaks it ends with.

Every value is written together with the line break that ends it.

Key definitions: `Yaml.textLine`, `Yaml.leafLine`, `Yaml.writeMembers`,
`Document.yamlText`.
-/
import OpenScad.Document
import OpenScad.Yaml.Style

namespace OpenScad
namespace Yaml

/-- Blanks at the front of a line. -/
def blanks (n : Nat) : List Char := List.replicate n ' '

/-- How many columns further in the parts of a value stand. -/
def indentStep : Nat := 2

/-! ### Scalars -/

/-- Numbers other than whole ones keep a point or a power of ten. -/
def numeralStyle : NumeralStyle :=
  { tie := .even, positional := some (-5, 15), keepsPoint := true, plusSign := false }

/-- A number in base sixteen, upper case, with the given number of digits. -/
def hexDigits (width n : Nat) : List Char :=
  let digits := (Nat.toDigits 16 n).map Char.toUpper
  List.replicate (width - digits.length) '0' ++ digits

/-- How a character stands between double quotes. -/
def escapeChar (c : Char) : List Char :=
  let n := c.toNat
  if c = '"' then ['\\', '"']
  else if c = '\\' then ['\\', '\\']
  else if isPrintable c && !isBreak c then [c]
  else match n with
    | 0x00 => ['\\', '0']
    | 0x07 => ['\\', 'a']
    | 0x08 => ['\\', 'b']
    | 0x09 => ['\\', 't']
    | 0x0A => ['\\', 'n']
    | 0x0B => ['\\', 'v']
    | 0x0C => ['\\', 'f']
    | 0x0D => ['\\', 'r']
    | 0x1B => ['\\', 'e']
    | 0x85 => ['\\', 'N']
    | 0x2028 => ['\\', 'L']
    | 0x2029 => ['\\', 'P']
    | n =>
      if n ≤ 0xFF then '\\' :: 'x' :: hexDigits 2 n
      else if n ≤ 0xFFFF then '\\' :: 'u' :: hexDigits 4 n
      else '\\' :: 'U' :: hexDigits 8 n

/-- The inside of single quotes: a quote is doubled, and a line after a break is set in. -/
def singleQuoted (indent : Nat) (broken : Bool) : List Char → List Char
  | [] => if broken then blanks indent else []
  | c :: rest =>
    if isBreak c then c :: singleQuoted indent true rest
    else if c = ' ' then c :: singleQuoted indent broken rest
    else
      (if broken then blanks indent else []) ++ (if c = '\'' then ['\'', '\''] else [c]) ++
        singleQuoted indent false rest

/-- The lines of a block, each set in unless it is empty, with the line break that ends
the last one. -/
def blockLines (indent : Nat) (broken : Bool) : List Char → List Char
  | [] => if broken then [] else ['\n']
  | c :: rest =>
    if isBreak c then c :: blockLines indent true rest
    else (if broken then blanks indent else []) ++ c :: blockLines indent false rest

/-- The mark of a block's indentation, which only a block that starts with a space or a
break needs. -/
def indentMark (text : List Char) : List Char :=
  match text.head? with
  | some c => if c = ' ' || isBreak c then Nat.toDigits 10 indentStep else []
  | none => []

/-- The mark of a block's end: whether it ends with no line break, one, or more. -/
def endMark (text : List Char) : List Char :=
  match text.reverse with
  | [] => ['-']
  | [c] => if isBreak c then ['+'] else ['-']
  | c :: d :: _ => if !isBreak c then ['-'] else if isBreak d then ['+'] else []

/-- A text and the line break behind it, where lines after the first start at a column. -/
def textLine (indent : Nat) (text : List Char) : List Char :=
  match styleOf text with
  | .plain => text ++ ['\n']
  | .single => '\'' :: (singleQuoted indent false text ++ ['\'', '\n'])
  | .double => '"' :: (text.flatMap escapeChar ++ ['"', '\n'])
  | .block => '|' :: (indentMark text ++ endMark text ++ '\n' :: blockLines indent true text)

/-- A number that is not written as a whole one. -/
def real : Binary64 → List Char
  | .nan => ".nan".toList
  | .infinite negative => Binary64.sign negative ++ ".inf".toList
  | .finite negative e f => Binary64.renderFinite numeralStyle negative e f

/-- A whole number. -/
def integer (n : Int) : List Char := (if n < 0 then ['-'] else []) ++ Nat.toDigits 10 n.natAbs

/-! ### Documents -/

/-- The rest of the line behind a name or a dash for a value without parts. Lines after
the first, which only a text can have, start at a column. -/
def leafLine (indent : Nat) : Document → List Char
  | .null => " null\n".toList
  | .boolean value => ' ' :: ((toString value).toList ++ ['\n'])
  | .integer n => ' ' :: (integer n ++ ['\n'])
  | .real x => ' ' :: (real x ++ ['\n'])
  | .text value => ' ' :: textLine indent value.toList
  | .list _ => [' ', '[', ']', '\n']
  | .record _ => [' ', '\x7b', '\x7d', '\n']

mutual

/-- Writes a value behind the name of a member that stands at a column, in front of a
tail. -/
def writeValue (column : Nat) : Document → List Char → List Char
  | .list (item :: items), tail => '\n' :: writeItems column (item :: items) tail
  | .record ((name, value) :: members), tail =>
    '\n' :: writeMembers (column + indentStep) ((name, value) :: members) tail
  | leaf, tail => leafLine (column + indentStep) leaf ++ tail

/-- Writes a value behind a dash that stands at a column, in front of a tail. -/
def writeItem (column : Nat) : Document → List Char → List Char
  | .record ((name, value) :: members), tail =>
    ' ' :: (name.toList ++ ':' :: writeValue (column + indentStep) value
      (writeMembers (column + indentStep) members tail))
  | .list (item :: items), tail =>
    ' ' :: '-' :: writeItem (column + indentStep) item
      (writeItems (column + indentStep) items tail)
  | leaf, tail => leafLine (column + indentStep) leaf ++ tail

/-- Writes items at a column in front of a tail. -/
def writeItems (column : Nat) : List Document → List Char → List Char
  | [], tail => tail
  | item :: items, tail =>
    blanks column ++ '-' :: writeItem column item (writeItems column items tail)

/-- Writes members at a column in front of a tail. -/
def writeMembers (column : Nat) : List (String × Document) → List Char → List Char
  | [], tail => tail
  | (name, value) :: members, tail =>
    blanks column ++ name.toList ++ ':' ::
      writeValue column value (writeMembers column members tail)

end

end Yaml

namespace Document

/-- The YAML text of a document. -/
def yamlText (document : Document) : String :=
  match document with
  | record members => String.ofList (Yaml.writeMembers 0 members [])
  | other => String.ofList ((Yaml.writeItem 0 other []).drop 1)

end Document
end OpenScad
