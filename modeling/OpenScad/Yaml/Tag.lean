/-
# YAML tags and directives

A tag is given in full between angle brackets, or as the rest of a tag behind a
handle. Directives, before the start of a document, say which version of YAML it
is written in and what more handles stand for. In tags a percent sign with two
digits stands for an octet, and octets must make up whole characters; an octet
is held as the character with its number, and one of zero ends the tag.

Key definitions: `Yaml.Tag`, `Yaml.readTag`, `Yaml.Directive`,
`Yaml.readDirective`, `Yaml.handles?`, `Yaml.Tag.resolve?`.
-/
import OpenScad.Yaml.Block

namespace OpenScad
namespace Yaml

/-- A tag as it is written. -/
inductive Tag where
  | full (text : List Char)
  | short (handle rest : List Char)
  deriving DecidableEq, Repr

/-- A directive. -/
inductive Directive where
  | version (major minor : Nat)
  /-- What a handle stands for. -/
  | handle (handle text : List Char)
  deriving DecidableEq, Repr

/-! ### The text of tags -/

/-- Whether a character may stand in a tag; commas and square brackets only in some. -/
def isTagChar (withMarks : Bool) (c : Char) : Bool :=
  isWordChar c || ";/?:@&=+$.!~*'()".toList.contains c || (withMarks && ",[]".toList.contains c)

/-- How many more octets a character needs behind one of its octets, of which it lacked
`due` before; none were lacking in front of its first. -/
def dueAfter? (due octet : Nat) : Option Nat :=
  if 0 < due then if 0x80 ≤ octet ∧ octet < 0xC0 then some (due - 1) else none
  else if octet < 0x80 then some 0
  else if octet < 0xC0 then none
  else if octet < 0xE0 then some 1
  else if octet < 0xF0 then some 2
  else if octet < 0xF8 then some 3
  else none

/-- The text of a tag up to the first character that cannot stand in one, and the rest. -/
def tagTextFrom (withMarks : Bool) (due : Nat) : List Char → Option (List Char × List Char)
  | [] => if due = 0 then some ([], []) else none
  | '%' :: high :: low :: rest => do
    let octet := 16 * (← Json.hexValue? high) + (← Json.hexValue? low)
    let (text, rest) ← tagTextFrom withMarks (← dueAfter? due octet) rest
    return (Char.ofNat octet :: text, rest)
  | c :: rest =>
    if 0 < due || c = '%' then none
    else if isTagChar withMarks c then do
      let (text, rest) ← tagTextFrom withMarks 0 rest
      return (c :: text, rest)
    else some ([], c :: rest)

/-- The text of a tag as far as an octet of zero. -/
def untilZero (text : List Char) : List Char := text.takeWhile (· ≠ '\x00')

/-- The text of a tag, which may not be empty, and the rest. -/
def readTagText (withMarks : Bool) (text : List Char) : Option (List Char × List Char) := do
  let (tag, rest) ← tagTextFrom withMarks 0 text
  if tag.isEmpty then none else some (untilZero tag, rest)

/-- The handle whose exclamation mark is behind, and the rest: a word and another
exclamation mark, or either or both of them missing. -/
def splitHandle (text : List Char) : List Char × List Char :=
  let word := text.takeWhile isWordChar
  match text.drop word.length with
  | '!' :: rest => ('!' :: word ++ ['!'], rest)
  | rest => ('!' :: word, rest)

/-- Whether a handle ends with an exclamation mark of its own. -/
def isClosed (handle : List Char) : Bool :=
  1 < handle.length && handle.getLast? = some '!'

/-! ### Tags -/

/-- The tag whose exclamation mark is behind, and the rest. The mark alone is a tag, and
if no handle is closed the mark itself is one. -/
def tagOf? (text : List Char) : Option (Tag × List Char) := do
  match text with
  | '<' :: text =>
    let (tag, rest) ← readTagText true text
    if rest.head? = some '>' then some (.full tag, rest.drop 1) else none
  | _ =>
    let (handle, rest) := splitHandle text
    if isClosed handle then
      let (tag, rest) ← readTagText false rest
      return (.short handle tag, rest)
    else
      let (tag, rest) ← tagTextFrom false 0 text
      let tag := untilZero tag
      return (if tag.isEmpty then .full ['!'] else .short ['!'] tag, rest)

/-- The tag at a place, behind which a word must end; between braces a comma may follow. -/
def readTag (inBraces : Bool) (cursor : Cursor) : Option (Tag × Cursor) := do
  let (tag, rest) ← tagOf? (cursor.rest.drop 1)
  if endsWord rest || (inBraces && rest.head? = some ',') then some (tag, cursor.onLine rest)
  else none

/-! ### Directives -/

/-- A number of at most nine digits at the front of a text, and the rest. -/
def readVersionNumber (text : List Char) : Option (Nat × List Char) :=
  let digits := text.takeWhile Char.isDigit
  if digits.isEmpty || 9 < digits.length then none
  else some (digits.foldl (fun n c => 10 * n + Decimal.digitValue c) 0, text.drop digits.length)

/-- The version at the front of a text, and the rest. -/
def readVersion (text : List Char) : Option (Directive × List Char) := do
  let (major, rest) ← readVersionNumber text
  if rest.head? = some '.' then
    let (minor, rest) ← readVersionNumber (rest.drop 1)
    return (.version major minor, rest)
  else none

/-- A handle, blanks, and the text that it stands for at the front of a text; and the
rest. -/
def readHandle (text : List Char) : Option (Directive × List Char) := do
  match text with
  | '!' :: text =>
    let (handle, rest) := splitHandle text
    let (tag, after) ← readTagText true (rest.dropWhile isBlank)
    if (isClosed handle || handle = ['!']) && rest.head?.any isBlank && endsWord after then
      some (.handle handle tag, after)
    else none
  | _ => none

/-- The directive at a place, and the place behind its line. -/
def readDirective (cursor : Cursor) : Option (Directive × Cursor) := do
  let text := cursor.rest.drop 1
  let name := text.takeWhile isWordChar
  let rest := text.drop name.length
  if !endsWord rest then none
  else
    let values := rest.dropWhile isBlank
    let (directive, rest) ←
      if name = "YAML".toList then readVersion values
      else if name = "TAG".toList then readHandle values
      else none
    let behind ← endOfLine? rest
    return (directive, { line := cursor.line + 1, column := 0, rest := behind })

/-! ### What handles stand for -/

/-- What handles stand for if no directive says so. -/
def defaultHandles : List (List Char × List Char) :=
  [(['!'], ['!']), (['!', '!'], "tag:yaml.org,2002:".toList)]

/-- What handles stand for under directives. None of these may be given twice, and the
version must be 1.1 or 1.2. -/
def handles? : List Directive → Option (List (List Char × List Char))
  | [] => some defaultHandles
  | .version major minor :: directives => do
    let again := directives.any fun
      | .version .. => true
      | _ => false
    if again || major ≠ 1 || (minor ≠ 1 && minor ≠ 2) then none else handles? directives
  | .handle handle text :: directives => do
    let again := directives.any fun
      | .handle other _ => other = handle
      | _ => false
    if again then none else return (handle, text) :: (← handles? directives)

/-- A tag in full. -/
def Tag.resolve? (handles : List (List Char × List Char)) : Tag → Option (List Char)
  | full text => some text
  | short handle rest => (handles.lookup handle).map (· ++ rest)

end Yaml
end OpenScad
