/-
# Styles of YAML scalars

How a text is written depends on its characters. A text with line feeds is
written as a block if that is possible. Any other text is written plainly
unless it would then be read as something else, or its characters have a
meaning in YAML; then it stands between single quotes, and between double
quotes if it holds a character that only an escape can give.

Key definitions: `Yaml.Style`, `Yaml.styleOf`.
-/
import OpenScad.Yaml.Character
import OpenScad.Yaml.Plain

namespace OpenScad
namespace Yaml

/-- How a scalar is written. -/
inductive Style where
  | plain
  | single
  | double
  | block
  deriving DecidableEq, Repr

/-- Whether a text ends, breaks or has a blank where it goes on like this. -/
def startsBlank : List Char → Bool
  | [] => true
  | c :: _ => isBlank c || isBreak c || c = '\x00'

/-- Whether a character starts a YAML construct at the front of a scalar. -/
def indicators : List Char :=
  ['#', ',', '[', ']', '\x7b', '\x7d', '&', '*', '!', '|', '>', '\'', '"', '%', '@', '\x60']

/-- Whether the front of a text has a meaning of its own. -/
def startsWithIndicator : List Char → Bool
  | [] => false
  | c :: rest =>
    indicators.contains c || ((c = '?' || c = ':' || c = '-') && startsBlank rest) ||
      ['-', '-', '-'].isPrefixOf (c :: rest) || ['.', '.', '.'].isPrefixOf (c :: rest)

/-- Whether a colon before a blank, or a number sign after one, stands in the text behind
a character. -/
def hasInnerIndicator (before : Char) : List Char → Bool
  | [] => false
  | c :: rest =>
    (c = ':' && startsBlank rest) || (c = '#' && startsBlank [before]) || hasInnerIndicator c rest

/-- Whether two neighbouring characters pass a test. -/
def hasPair (test : Char → Char → Bool) : List Char → Bool
  | a :: b :: rest => test a b || hasPair test (b :: rest)
  | _ => false

/-- Whether a space stands right behind a line break. -/
def hasBreakSpace (text : List Char) : Bool := hasPair (fun a b => isBreak a && b = ' ') text

/-- Whether a line break stands right behind a space. -/
def hasSpaceBreak (text : List Char) : Bool := hasPair (fun a b => a = ' ' && isBreak b) text

/-- Whether only escapes can give the text. -/
def needsEscape (text : List Char) : Bool :=
  text.any (fun c => !isPrintable c) || hasSpaceBreak text

/-- Whether the text keeps its meaning without quotes. -/
def allowsPlain (text : List Char) : Bool :=
  match text with
  | [] => true
  | c :: rest =>
    !(startsWithIndicator text || hasInnerIndicator c rest || needsEscape text ||
      text.any isBreak || c = ' ' || text.getLast? = some ' ')

/-- Whether the text can stand between single quotes. -/
def allowsSingle (text : List Char) : Bool := !(needsEscape text || hasBreakSpace text)

/-- Whether the text can be written as a block. -/
def allowsBlock (text : List Char) : Bool :=
  !(text.isEmpty || needsEscape text || text.getLast? = some ' ')

/-- The style in which a text is written. -/
def styleOf (text : List Char) : Style :=
  if text.contains '\n' then
    if allowsBlock text then .block else .double
  else if isText text && allowsPlain text then .plain
  else if allowsSingle text then .single
  else .double

end Yaml
end OpenScad
