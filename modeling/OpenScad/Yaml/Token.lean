/-
# YAML tokens

A text as the sequence of marks, names and scalars that its structure rests on.
Nothing but the colon behind it shows that something is a key, so the place
where one may have begun is remembered, and the token of the key is put in there
later. A key and its colon stand on one line, at most 1024 characters apart.
Entries on lines of their own stand at one column; a token further to the left
ends their mapping.

Not covered: sequences, and mappings inside mappings. A text with any of these
has no tokens.

Key definitions: `Yaml.Token`, `Yaml.Reading`, `Yaml.Reading.step`,
`Yaml.tokens?`.
-/
import OpenScad.Yaml.Tag

namespace OpenScad
namespace Yaml

/-- A piece of a text that its structure rests on. -/
inductive Token where
  | directive (directive : Directive)
  | documentStart
  | documentEnd
  /-- The front of a mapping whose entries have lines of their own. -/
  | entriesStart
  | entriesEnd
  | openBrace
  | closeBrace
  | comma
  | key
  | value
  | reference (name : List Char)
  | anchor (name : List Char)
  | tag (tag : Tag)
  | scalar (form : ScalarForm) (text : List Char)
  deriving DecidableEq, Repr

/-- The name of an anchor, or of an alias that refers to one, whose mark stands here.
Blanks, an end, or certain indicators must follow. -/
def readName (cursor : Cursor) : Option (List Char × Cursor) :=
  let name := (cursor.rest.drop 1).takeWhile isWordChar
  let after := cursor.skip (name.length + 1)
  let follows := endsWord after.rest ||
    after.rest.head?.any ['?', ':', ',', ']', '\x7d', '%', '@', '\x60'].contains
  if name.isEmpty || !follows then none else some (name, after)

/-! ### The state of reading -/

/-- A place where a key may have begun. -/
structure Candidate where
  line : Nat
  column : Nat
  /-- How many tokens stand before it. -/
  before : Nat
  /-- Whether nothing but a key can stand there. -/
  isRequired : Bool
  deriving Repr

/-- Whether a colon at a place comes too late for a key. -/
def Candidate.isStale (candidate : Candidate) (cursor : Cursor) : Bool :=
  candidate.line < cursor.line || candidate.column + 1024 < cursor.column

/-- What has been read of a text. -/
structure Reading where
  cursor : Cursor
  /-- The tokens so far, the newest first. -/
  tokens : List Token := []
  /-- The column of the entries, inside a mapping whose entries have lines of their own. -/
  column : Option Nat := none
  inBraces : Bool := false
  candidate : Option Candidate := none
  /-- Whether a key may begin here. -/
  allowsKey : Bool := true
  deriving Repr

namespace Reading

/-- The reading after one more token, which ends at a place. -/
def push (reading : Reading) (token : Token) (cursor : Cursor) : Reading :=
  { reading with tokens := token :: reading.tokens, cursor }

/-- The reading with a token put behind the first `before` of its tokens. -/
def insert (reading : Reading) (before : Nat) (token : Token) : Reading :=
  let later := reading.tokens.length - before
  { reading with tokens := reading.tokens.take later ++ token :: reading.tokens.drop later }

/-- The reading without a place where a key may have begun. There must not be one where
nothing else can stand. -/
def dropCandidate (reading : Reading) : Option Reading :=
  if reading.candidate.any Candidate.isRequired then none
  else some { reading with candidate := none }

/-- The reading without a place that lies too far back for a key. -/
def dropStale (reading : Reading) : Option Reading :=
  if reading.candidate.any (·.isStale reading.cursor) then reading.dropCandidate
  else some reading

/-- The reading at something with which a key may begin, if one may. -/
def withCandidate (reading : Reading) : Option Reading := do
  if !reading.allowsKey then return reading
  let reading ← reading.dropCandidate
  let place := reading.cursor
  let candidate : Candidate :=
    { line := place.line
      column := place.column
      before := reading.tokens.length
      isRequired := !reading.inBraces && reading.column = some place.column }
  return { reading with candidate := some candidate }

/-- The reading inside entries at a column, the first of which begins behind `before`
tokens. Entries inside entries are refused. -/
def openEntries (reading : Reading) (column before : Nat) : Option Reading :=
  match reading.column with
  | none => some { reading.insert before .entriesStart with column := some column }
  | some outer => if outer < column then none else some reading

/-- The reading outside entries. -/
def closeEntries (reading : Reading) : Reading :=
  if reading.column.isSome then
    { reading.push .entriesEnd reading.cursor with column := none }
  else reading

/-- The reading at the next token: blanks and comments are behind, and so is a mapping
whose entries stand further to the right. -/
def toToken (reading : Reading) : Option Reading := do
  let cursor := reading.cursor.toToken (reading.inBraces || !reading.allowsKey) reading.inBraces
  let onNewLine := reading.cursor.line < cursor.line
  let allowsKey := reading.allowsKey || (!reading.inBraces && onNewLine)
  let reading ← dropStale { reading with cursor, allowsKey }
  if reading.column.any (cursor.column < ·) then return reading.closeEntries
  else return reading

/-- The reading behind everything that belongs to the document before this place. -/
def leaveDocument (reading : Reading) : Option Reading := do
  let reading ← reading.dropCandidate
  return { reading.closeEntries with allowsKey := false }

/-! ### Tokens one at a time -/

/-- The reading behind an opening brace, which must be the outermost. -/
def openBrace (reading : Reading) : Option Reading :=
  if reading.inBraces || reading.column.isSome then none
  else some { reading.push .openBrace reading.cursor.next with
    inBraces := true, candidate := none, allowsKey := true }

/-- The reading behind a closing brace. -/
def closeBrace (reading : Reading) : Option Reading :=
  if reading.inBraces then
    some { reading.push .closeBrace reading.cursor.next with
      inBraces := false, candidate := none, allowsKey := false }
  else none

/-- The reading behind a comma between entries. -/
def comma (reading : Reading) : Option Reading :=
  if reading.inBraces then
    some { reading.push .comma reading.cursor.next with candidate := none, allowsKey := true }
  else none

/-- The reading inside the entries to which a mark at this place belongs. -/
def enterEntries (reading : Reading) : Option Reading :=
  if reading.inBraces then some reading
  else if reading.allowsKey then
    reading.openEntries reading.cursor.column reading.tokens.length
  else none

/-- The reading behind a question mark, which announces a key. -/
def key (reading : Reading) : Option Reading := do
  let reading ← (← reading.enterEntries).dropCandidate
  return { reading.push .key reading.cursor.next with allowsKey := !reading.inBraces }

/-- The reading behind the colon of a value. What stands before it is the key, if one may
have begun there; otherwise the key has been announced, or is missing. -/
def value (reading : Reading) : Option Reading :=
  match reading.candidate with
  | some candidate => do
    let reading := reading.insert candidate.before .key
    let reading ←
      if reading.inBraces then some reading
      else reading.openEntries candidate.column candidate.before
    return { reading.push .value reading.cursor.next with candidate := none, allowsKey := false }
  | none => do
    let reading ← reading.enterEntries
    return { reading.push .value reading.cursor.next with allowsKey := !reading.inBraces }

/-- The reading behind a name, tag or scalar with which a key may begin. -/
def word (reading : Reading) (read : Cursor → Option (Token × Cursor)) : Option Reading := do
  let reading ← reading.withCandidate
  let (token, cursor) ← read reading.cursor
  return { reading.push token cursor with allowsKey := false }

/-- The reading behind a block of lines. -/
def block (reading : Reading) (form : ScalarForm) : Option Reading := do
  let reading ← reading.dropCandidate
  let (text, cursor) ← readBlock (form = .folded) reading.column reading.cursor.next
  return { reading.push (.scalar form text) cursor with allowsKey := true }

/-- The reading behind a plain scalar. A key may begin behind one that line breaks
follow. -/
def plain (reading : Reading) : Option Reading := do
  let reading ← reading.withCandidate
  let indent := reading.column.elim 0 (· + 1)
  let (text, isBroken, cursor) ← readPlain reading.inBraces indent reading.cursor
  return { reading.push (.scalar .plain text) cursor with allowsKey := isBroken }

/-- The reading behind the token at this place. -/
def step (reading : Reading) : Option Reading :=
  let cursor := reading.cursor
  let isMark := reading.inBraces || endsWord (cursor.rest.drop 1)
  let isLine := !reading.inBraces
  match cursor.rest with
  | [] => none
  | c :: rest =>
    if cursor.column = 0 && c = '%' then do
      let reading ← reading.leaveDocument
      let (directive, cursor) ← readDirective cursor
      return reading.push (.directive directive) cursor
    else if cursor.atMark then
      reading.leaveDocument.map
        (·.push (if c = '-' then .documentStart else .documentEnd) (cursor.skip 3))
    else if c = '\x7b' then reading.openBrace
    else if c = '\x7d' then reading.closeBrace
    else if c = ',' then reading.comma
    else if c = '[' || c = ']' || (c = '-' && endsWord rest) then none
    else if c = '?' && isMark then reading.key
    else if c = ':' && isMark then reading.value
    else if c = '*' then reading.word fun cursor => (readName cursor).map fun (name, after) =>
      (.reference name, after)
    else if c = '&' then reading.word fun cursor => (readName cursor).map fun (name, after) =>
      (.anchor name, after)
    else if c = '!' then reading.word fun cursor =>
      (readTag reading.inBraces cursor).map fun (tag, after) => (.tag tag, after)
    else if c = '|' && isLine then reading.block .literal
    else if c = '>' && isLine then reading.block .folded
    else if c = '\'' then reading.word fun cursor =>
      (readSingle cursor.next).map fun (text, after) => (.scalar .quoted text, after)
    else if c = '"' then reading.word fun cursor =>
      (readDouble cursor.next).map fun (text, after) => (.scalar .quoted text, after)
    else reading.plain

/-- The tokens of the whole text. Every step must pass a part of it. -/
def finish? (reading : Reading) : Option (List Token) := do
  let start ← reading.toToken
  if start.cursor.rest.isEmpty then return (← start.leaveDocument).tokens.reverse
  let next ← start.step
  if next.cursor.rest.length < reading.cursor.rest.length then next.finish? else none
termination_by reading.cursor.rest.length

end Reading

/-- The tokens of a text. -/
def tokens? (text : List Char) : Option (List Token) :=
  if text.all isAllowed then
    Reading.finish? { cursor := { rest := normalBreaks text } }
  else none

end Yaml
end OpenScad
