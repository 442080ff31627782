/-
# Positions of byte offsets

An index of a source text that holds where each line starts, both in bytes and
in characters. It gives the position of a byte offset, and counts lines by the
same three line breaks as `Text.splitLines`.

An offset past the end stands for the end. An offset inside a character has the
first column of its line.

Key definitions: `LineIndex.ofText`, `LineIndex.position`, `LineIndex.lineCount`.
-/
import OpenScad.Position

namespace OpenScad

/-- The start of a line, in bytes and in characters. -/
structure LineStart where
  byte : Nat
  char : Nat
  deriving DecidableEq, Repr

/-- The starts of the lines after the first, and the length of the text in bytes. -/
structure LineIndex where
  later : List LineStart
  size : Nat
  deriving DecidableEq, Repr

namespace LineIndex

/-- The starts of the lines that follow a break in the text, which itself starts at
the given place. A carriage return before a line feed is no break of its own. -/
def startsFrom (byte char : Nat) : List Char → List LineStart
  | [] => []
  | c :: rest =>
    let next : LineStart := { byte := byte + c.utf8Size, char := char + 1 }
    let more := startsFrom next.byte next.char rest
    if c = '\n' ∨ (c = '\r' ∧ rest.head? ≠ some '\n') then next :: more else more

/-- The number of bytes of a text. -/
def byteLength (text : List Char) : Nat := text.foldr (fun c size => c.utf8Size + size) 0

/-- The index of a text. -/
def ofText (text : List Char) : LineIndex :=
  { later := startsFrom 0 0 text, size := byteLength text }

/-- The number of lines. -/
def lineCount (index : LineIndex) : Nat := index.later.length + 1

/-- The starts that lie at or before an offset, as a count and the last of them. -/
def locate (index : LineIndex) (offset : Nat) : Nat × LineStart :=
  let before := index.later.takeWhile fun start => start.byte ≤ offset
  (before.length, before.getLast?.getD { byte := 0, char := 0 })

/-- How many characters the first bytes of a text spell; `none` if the count ends
inside a character or after the text. -/
def charsIn : List Char → Nat → Option Nat
  | _, 0 => some 0
  | [], _ + 1 => none
  | c :: rest, n + 1 =>
    if c.utf8Size ≤ n + 1 then (charsIn rest (n + 1 - c.utf8Size)).map (· + 1) else none

/-- The position of a byte offset in the text that the index was made from. -/
def position (index : LineIndex) (text : List Char) (byte : Nat) : Position :=
  let byte := min byte index.size
  let (line, start) := index.locate byte
  let column := (charsIn (text.drop start.char) (byte - start.byte)).getD 0
  { line := line + 1, column := column + 1, offset := start.char + column }

end LineIndex
end OpenScad
