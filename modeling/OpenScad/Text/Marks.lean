/-
# Marks around texts

Literals and comments stand between marks, or behind one. A text is freed from
its marks only if it has all of them, and two marks never share a character.

Key definitions: `between`, `behind`.
-/
namespace OpenScad
namespace Text

/-- The text behind a mark, if it starts with it. -/
def behind? (mark text : List Char) : Option (List Char) :=
  if mark.isPrefixOf text then some (text.drop mark.length) else none

/-- The text in front of a mark, if it ends with it. -/
def before? (mark text : List Char) : Option (List Char) :=
  if mark.isSuffixOf text then some (text.take (text.length - mark.length)) else none

/-- The text between two marks, or the text as it is if either is missing. The marks do
not overlap. -/
def between (opening closing : List Char) (text : String) : String :=
  match (behind? opening text.toList).bind (before? closing) with
  | some inner => String.ofList inner
  | none => text

/-- The text behind a mark, or the text as it is. -/
def behind (mark : List Char) (text : String) : String :=
  match behind? mark text.toList with
  | some rest => String.ofList rest
  | none => text

end Text

end OpenScad
