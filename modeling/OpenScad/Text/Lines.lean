/-
# Lines of a text

A line ends at a carriage return followed by a line feed, at a lone carriage
return, or at a lone line feed. Splitting keeps every other character and
always gives at least one line.

Key definitions: `splitLines`, `lines`.
-/
namespace OpenScad
namespace Text

/-- Puts a character in front of the first line. -/
def consLine (c : Char) : List (List Char) → List (List Char)
  | [] => [[c]]
  | line :: lines => (c :: line) :: lines

/-- The lines of a text: what stands between its line breaks. A carriage return
and the line feed right after it are one break. -/
def splitLines : List Char → List (List Char)
  | [] => [[]]
  | '\r' :: '\n' :: rest => [] :: splitLines rest
  | c :: rest =>
    if c = '\r' ∨ c = '\n' then [] :: splitLines rest else consLine c (splitLines rest)

/-- `splitLines` on strings. -/
def lines (text : String) : List String := (splitLines text.toList).map String.ofList

theorem consLine_ne_nil (c : Char) (ls : List (List Char)) : consLine c ls ≠ [] := by
  cases ls <;> simp [consLine]

theorem splitLines_ne_nil (text : List Char) : splitLines text ≠ [] := by
  fun_cases splitLines text
  · simp
  · simp
  · simp
  · exact consLine_ne_nil _ _

end Text
end OpenScad
