/-
# Places in YAML texts

A cursor is what is left of a text and the line and column where that starts,
both counted from zero. Carriage returns and the character U+0085 become line
feeds before anything is read (`normalBreaks`); the separators U+2028 and U+2029
break lines too, but stay what they are.

Key definitions: `Yaml.normalBreaks`, `Yaml.Cursor`, `Yaml.Cursor.atMark`,
`Yaml.Cursor.toToken`.
-/
import OpenScad.Yaml.Character

namespace OpenScad
namespace Yaml

/-- A text in which every line break is a line feed, but for the separators of lines and
paragraphs. -/
def normalBreaks : List Char → List Char
  | [] => []
  | '\r' :: '\n' :: rest => '\n' :: normalBreaks rest
  | c :: rest => (if c = '\r' || c = '\u0085' then '\n' else c) :: normalBreaks rest

/-! ### Cursors -/

/-- What is left of a text, and where that starts. -/
structure Cursor where
  line : Nat := 0
  column : Nat := 0
  rest : List Char
  deriving Repr

namespace Cursor

/-- The place behind one character. -/
def next (cursor : Cursor) : Cursor :=
  match cursor.rest with
  | [] => cursor
  | c :: rest =>
    if isBreak c then { line := cursor.line + 1, column := 0, rest }
    else { cursor with column := cursor.column + 1, rest }

/-- The place behind some characters. -/
def skip (cursor : Cursor) : Nat → Cursor
  | 0 => cursor
  | n + 1 => skip cursor.next n

/-- The place on the same line where the rest of the text is the given one. -/
def onLine (cursor : Cursor) (rest : List Char) : Cursor :=
  { cursor with column := cursor.column + (cursor.rest.length - rest.length), rest }

/-- Whether a mark of a document's start or end stands here, at the front of a line. -/
def atMark (cursor : Cursor) : Bool :=
  cursor.column == 0 &&
    (['-', '-', '-'].isPrefixOf cursor.rest || ['.', '.', '.'].isPrefixOf cursor.rest) &&
    endsWord (cursor.rest.drop 3)

end Cursor

/-! ### Between tokens -/

/-- The next place where a token may start, behind blanks, comments and line breaks.
Whether tabs are blanks is known for the first line and for those after it. A byte order
mark at the front of a line is passed, and takes up its column. -/
def tokenFrom (tabs laterTabs comment : Bool) (line column : Nat) : List Char → Cursor
  | [] => { line, column, rest := [] }
  | c :: rest =>
    if isBreak c then tokenFrom laterTabs laterTabs false (line + 1) 0 rest
    else if comment || c = ' ' || (tabs && c = '\t') || (column == 0 && c = '\ufeff') then
      tokenFrom tabs laterTabs comment line (column + 1) rest
    else if c = '#' then tokenFrom tabs laterTabs true line (column + 1) rest
    else { line, column, rest := c :: rest }

/-- The next place where a token may start. -/
def Cursor.toToken (cursor : Cursor) (tabs laterTabs : Bool) : Cursor :=
  tokenFrom tabs laterTabs false cursor.line cursor.column cursor.rest

end Yaml
end OpenScad
