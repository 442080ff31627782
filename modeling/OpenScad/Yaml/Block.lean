/-
# YAML block scalars

A block is a mark, a few signs on the same line, and the lines behind it that
are set in far enough. Line breaks between lines stay, or fold as they do in
plain scalars unless one of the two lines starts with a blank. A sign says what
happens to the breaks at the end, and a digit how far the lines are set in; if
no digit does, the first line with content shows it.

Key definitions: `Yaml.BlockHeader`, `Yaml.detectIndent`, `Yaml.blockFrom`,
`Yaml.readBlock`.
-/
import OpenScad.Yaml.Scalar

namespace OpenScad
namespace Yaml

/-- What happens to the line breaks at the end of a block. -/
inductive Chomping where
  | strip
  | clip
  | keep
  deriving DecidableEq, Repr

/-- The line breaks that stay at the end of a block, of those behind its last line. -/
def Chomping.ending (chomping : Chomping) (first : Option Char) (more : List Char) : List Char :=
  match chomping with
  | .strip => []
  | .clip => first.toList
  | .keep => first.toList ++ more

/-! ### Headers -/

/-- The header of a block: what happens to its end, and how much further than what it
belongs to it is set in. -/
structure BlockHeader where
  chomping : Chomping := .clip
  depth : Option Nat := none
  deriving Repr

/-- The chomping that a sign asks for. -/
def chomping? (c : Char) : Option Chomping :=
  if c = '+' then some .keep else if c = '-' then some .strip else none

/-- The depth that a digit gives, which is not zero. -/
def depth? (c : Char) : Option Nat :=
  if '1' ≤ c ∧ c ≤ '9' then some (Decimal.digitValue c) else none

/-- The meaning of the first character if it has one, and the rest of the text. -/
def readSign {α : Type} (meaning? : Char → Option α) : List Char → Option α × List Char
  | [] => (none, [])
  | c :: rest =>
    match meaning? c with
    | some meaning => (some meaning, rest)
    | none => (none, c :: rest)

/-- The signs of a header, at most one of each kind in either order, and the rest. -/
def readSigns (text : List Char) : BlockHeader × List Char :=
  let (early, rest) := readSign chomping? text
  let (depth, rest) := readSign depth? rest
  let (late, rest) := if early.isSome then (none, rest) else readSign chomping? rest
  ({ chomping := (early.or late).getD .clip, depth }, rest)

/-- The end of a line on which only blanks and a comment may stand: what is behind its
line break. -/
def endOfLine? (text : List Char) : Option (List Char) :=
  match text.dropWhile isBlank with
  | [] => some []
  | c :: rest =>
    if c = '#' then some ((rest.dropWhile (!isBreak ·)).drop 1)
    else if isBreak c then some rest
    else none

/-! ### Lines -/

/-- How far a block is set in that does not say so: as far as its first line with content,
or the longest blank line before it, and no less than `least`. A tab cannot stand before
the content. -/
def detectIndent (least deepest column : Nat) : List Char → Option Nat
  | [] => some (max least (max deepest column))
  | c :: rest =>
    if c = ' ' then detectIndent least deepest (column + 1) rest
    else if c = '\t' then none
    else if isBreak c then detectIndent least (max deepest column) 0 rest
    else some (max least (max deepest column))

/-- Where reading stands in a block, and whether its latest line starts with a blank. -/
inductive BlockPlace where
  | inLine (startsBlank : Bool)
  /-- Behind the break of that line, if it has one, and some more. -/
  | betweenLines (startsBlank : Bool) (first : Option Char) (more : List Char)
  deriving Repr

/-- The rest of a block whose lines are set in by `indent` columns, and the place behind
it. A line with content that is not set in far enough ends it. -/
def blockFrom (isFolded : Bool) (chomping : Chomping) (indent : Nat) (place : BlockPlace)
    (line column : Nat) : List Char → Option (List Char × Cursor)
  | [] =>
    let ending := match place with
      | .inLine _ => []
      | .betweenLines _ first more => chomping.ending first more
    some (ending, { line, column, rest := [] })
  | c :: rest =>
    match place with
    | .inLine startsBlank =>
      if isBreak c then
        blockFrom isFolded chomping indent (.betweenLines startsBlank (some c) []) (line + 1) 0 rest
      else do
        let (text, cursor) ← blockFrom isFolded chomping indent place line (column + 1) rest
        return (c :: text, cursor)
    | .betweenLines startsBlank first more =>
      if isBreak c then
        blockFrom isFolded chomping indent (.betweenLines startsBlank first (more ++ [c]))
          (line + 1) 0 rest
      else if column < indent then
        if c = ' ' then blockFrom isFolded chomping indent place line (column + 1) rest
        else if c = '\t' then none
        else some (chomping.ending first more, { line, column, rest := c :: rest })
      else do
        let gap := Gap.breaks first more
        let gap := if isFolded && !startsBlank && !isBlank c then gap.fold else gap.keep
        let (text, cursor) ←
          blockFrom isFolded chomping indent (.inLine (isBlank c)) line (column + 1) rest
        return (gap ++ c :: text, cursor)

/-- A block whose mark is behind, inside entries at the column `parent` or at the front of
a document. -/
def readBlock (isFolded : Bool) (parent : Option Nat) (cursor : Cursor) :
    Option (List Char × Cursor) := do
  let (header, rest) := readSigns cursor.rest
  let body ← endOfLine? rest
  let indent ← match header.depth with
    | some depth => some (parent.getD 0 + depth)
    | none => detectIndent (parent.elim 1 (· + 1)) 0 0 body
  blockFrom isFolded header.chomping indent (.betweenLines false none []) (cursor.line + 1) 0 body

end Yaml
end OpenScad
