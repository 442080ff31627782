/-
# Quoted texts in messages

Messages show a text between double quotes. The quote and the backslash are
escaped, five controls have a letter of their own, and every other character
that has no glyph of its own is written as its code point in braces.

Key definitions: `quoteChar`, `quoted`.
-/
import OpenScad.Text.Printable

namespace OpenScad
namespace Text

/-- A number in base sixteen, lower case, without leading zeros. -/
def hex (n : Nat) : List Char := Nat.toDigits 16 n

/-- How one character stands inside a quoted text. -/
def quoteChar (c : Char) : List Char :=
  if c = '\x00' then ['\\', '0']
  else if c = '\t' then ['\\', 't']
  else if c = '\r' then ['\\', 'r']
  else if c = '\n' then ['\\', 'n']
  else if c = '\\' then ['\\', '\\']
  else if c = '"' then ['\\', '"']
  else if isPlain c then [c]
  else ['\\', 'u', '\x7b'] ++ hex c.toNat ++ ['\x7d']

/-- A text between double quotes, its characters escaped. -/
def quoted (text : String) : String :=
  String.ofList ('"' :: (text.toList.flatMap quoteChar ++ ['"']))

end Text
end OpenScad
