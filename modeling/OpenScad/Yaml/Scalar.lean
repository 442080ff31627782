/-
# Plain and quoted YAML scalars

Inside plain and quoted scalars a line feed with the blanks around it becomes a
space, and each further line break stays one. A separator of lines or
paragraphs does not fold: it stays, with all breaks behind it. A plain scalar
ends where a colon or a number sign has its meaning, and outside braces also at
a line that is not set in far enough.

Key definitions: `Yaml.Scalar`, `Yaml.Gap`, `Yaml.readPlain`,
`Yaml.readSingle`, `Yaml.readDouble`.
-/
import OpenScad.Json.Scan
import OpenScad.Yaml.Cursor

namespace OpenScad
namespace Yaml

/-- How a scalar was written. -/
inductive ScalarForm where
  | plain
  | quoted
  /-- A block of lines in which line breaks stay. -/
  | literal
  /-- A block of lines in which line breaks fold. -/
  | folded
  deriving DecidableEq, Repr

/-- A scalar with its tag in full. -/
structure Scalar where
  form : ScalarForm
  text : List Char
  tag : Option (List Char) := none
  deriving DecidableEq, Repr

/-! ### Gaps inside scalars -/

/-- Blanks and line breaks that have been passed inside a scalar. -/
inductive Gap where
  | none
  | blanks (text : List Char)
  /-- A first line break, which is missing if it was escaped, and those after it. -/
  | breaks (first : Option Char) (more : List Char)
  deriving Repr

namespace Gap

/-- The text of a gap whose breaks stay. -/
def keep : Gap → List Char
  | none => []
  | blanks text => text
  | breaks first more => first.toList ++ more

/-- The text of a gap that folds. -/
def fold : Gap → List Char
  | breaks (some '\n') [] => [' ']
  | breaks (some '\n') more => more
  | gap => gap.keep

/-- The gap after one more blank. -/
def blank (c : Char) : Gap → Gap
  | none => blanks [c]
  | blanks text => blanks (text ++ [c])
  | gap => gap

/-- The gap after one more line break. -/
def lineBreak (c : Char) : Gap → Gap
  | breaks first more => breaks first (more ++ [c])
  | _ => breaks (some c) []

/-- Whether a gap holds line breaks. -/
def isBroken : Gap → Bool
  | breaks .. => true
  | _ => false

/-- Whether nothing has been passed. -/
def isNone : Gap → Bool
  | none => true
  | _ => false

end Gap

/-! ### Plain scalars -/

/-- The characters that end a plain scalar between braces. -/
def flowIndicators : List Char := [',', '[', ']', '\x7b', '\x7d']

/-- Whether a plain scalar ends at a place, given the gap before it. -/
def endsPlain (inBraces : Bool) (indent : Nat) (gap : Gap) (cursor : Cursor) : Bool :=
  match cursor.rest with
  | [] => true
  | c :: rest =>
    (gap.isBroken && !inBraces && cursor.column < indent) || cursor.atMark ||
      (c = '#' && !gap.isNone) || (c = ':' && endsWord rest) ||
      (inBraces && flowIndicators.contains c)

/-- The rest of a plain scalar behind a gap, whether line breaks have been passed behind
it, and the place where the next token may start. Its lines are set in by at least
`indent` columns. -/
def plainFrom (inBraces : Bool) (indent : Nat) (gap : Gap) (line column : Nat) :
    List Char → Option (List Char × Bool × Cursor)
  | [] => some ([], gap.isBroken, { line, column, rest := [] })
  | c :: rest =>
    if isBreak c then plainFrom inBraces indent (gap.lineBreak c) (line + 1) 0 rest
    else if isBlank c then
      if gap.isBroken && column < indent && c = '\t' then none
      else plainFrom inBraces indent (gap.blank c) line (column + 1) rest
    else if endsPlain inBraces indent gap { line, column, rest := c :: rest } then
      some ([], gap.isBroken, { line, column, rest := c :: rest })
    else if inBraces && c = ':' &&
        (rest.head?.any fun d => flowIndicators.contains d || d = '?') then
      none
    else do
      let (text, isBroken, cursor) ← plainFrom inBraces indent .none line (column + 1) rest
      return (gap.fold ++ c :: text, isBroken, cursor)

/-- The characters that cannot start a plain scalar. -/
def indicatorChars : List Char :=
  ['-', '?', ':', ',', '[', ']', '\x7b', '\x7d', '#', '&', '*', '!', '|', '>', '\'', '"', '%',
   '@', '\x60']

/-- Whether a plain scalar can start here. Between braces a question mark or a colon
cannot start one. -/
def startsPlain (inBraces : Bool) : List Char → Bool
  | [] => false
  | c :: rest =>
    if c = '-' then !endsWord rest
    else if c = '?' || c = ':' then !inBraces && !endsWord rest
    else !isBlank c && !isBreak c && !indicatorChars.contains c

/-- A plain scalar, whether line breaks follow it, and the place where the next token may
start. -/
def readPlain (inBraces : Bool) (indent : Nat) (cursor : Cursor) :
    Option (List Char × Bool × Cursor) :=
  if startsPlain inBraces cursor.rest then
    plainFrom inBraces indent .none cursor.line cursor.column cursor.rest
  else none

/-! ### Quoted scalars -/

/-- The rest of a single-quoted scalar behind a gap, and the place behind it. -/
def singleFrom (gap : Gap) (line column : Nat) : List Char → Option (List Char × Cursor)
  | [] => none
  | '\'' :: '\'' :: rest => do
    let (text, cursor) ← singleFrom .none line (column + 2) rest
    return (gap.fold ++ '\'' :: text, cursor)
  | '\'' :: rest => some (gap.fold, { line, column := column + 1, rest })
  | c :: rest =>
    if isBreak c then singleFrom (gap.lineBreak c) (line + 1) 0 rest
    else if isBlank c then singleFrom (gap.blank c) line (column + 1) rest
    else if Cursor.atMark { line, column, rest := c :: rest } then none
    else do
      let (text, cursor) ← singleFrom .none line (column + 1) rest
      return (gap.fold ++ c :: text, cursor)

/-- The character that a letter after a backslash stands for. -/
def escaped? (c : Char) : Option Char :=
  match c with
  | '0' => some '\x00'
  | 'a' => some '\x07'
  | 'b' => some '\x08'
  | 't' => some '\t'
  | '\t' => some '\t'
  | 'n' => some '\n'
  | 'v' => some '\x0b'
  | 'f' => some '\x0c'
  | 'r' => some '\r'
  | 'e' => some '\x1b'
  | ' ' => some ' '
  | '"' => some '"'
  | '/' => some '/'
  | '\\' => some '\\'
  | 'N' => some '\u0085'
  | '_' => some '\u00a0'
  | 'L' => some '\u2028'
  | 'P' => some '\u2029'
  | _ => none

/-- How many digits follow a letter that announces a code. -/
def codeLength? (c : Char) : Option Nat :=
  match c with
  | 'x' => some 2
  | 'u' => some 4
  | 'U' => some 8
  | _ => none

/-- The character of a code, which must be a character of its own. -/
def charOf? (n : Nat) : Option Char := if n.isValidChar then some (Char.ofNat n) else none

/-- The code that the given digits spell. -/
def codeOf? (digits : List Char) : Option Nat :=
  digits.foldlM (fun n c => (Json.hexValue? c).map (16 * n + ·)) 0

/-- The rest of a double-quoted scalar behind a gap, and the place behind it. The count
bounds the characters read. -/
def doubleFrom : Nat → Gap → Cursor → Option (List Char × Cursor)
  | 0, _, _ => none
  | n + 1, gap, cursor =>
    match cursor.rest with
    | [] => none
    | '"' :: _ => some (gap.fold, cursor.next)
    | '\\' :: c :: rest =>
      if isBreak c then do
        let (text, after) ← doubleFrom n (.breaks none []) (cursor.skip 2)
        return (gap.fold ++ text, after)
      else match codeLength? c with
        | some length => do
          let digits := rest.take length
          if digits.length < length then none
          else
            let char ← (codeOf? digits).bind charOf?
            let (text, after) ← doubleFrom n .none (cursor.skip (length + 2))
            return (gap.fold ++ char :: text, after)
        | none => do
          let char ← escaped? c
          let (text, after) ← doubleFrom n .none (cursor.skip 2)
          return (gap.fold ++ char :: text, after)
    | c :: _ =>
      if isBreak c then doubleFrom n (gap.lineBreak c) cursor.next
      else if isBlank c then doubleFrom n (gap.blank c) cursor.next
      else if cursor.atMark || c = '\\' then none
      else do
        let (text, after) ← doubleFrom n .none cursor.next
        return (gap.fold ++ c :: text, after)

/-- A single-quoted scalar, the opening quote of which is behind. -/
def readSingle (cursor : Cursor) : Option (List Char × Cursor) :=
  singleFrom .none cursor.line cursor.column cursor.rest

/-- A double-quoted scalar, the opening quote of which is behind. -/
def readDouble (cursor : Cursor) : Option (List Char × Cursor) :=
  doubleFrom (cursor.rest.length + 1) .none cursor

end Yaml
end OpenScad
