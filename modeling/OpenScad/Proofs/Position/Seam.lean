/-
# Seams that cut a line break in two

Where one text stands behind another, a carriage return before the seam and a
line feed behind it are one line break. Going past the two texts in turn counts
that break twice and ends one line too far. At every other seam, the two steps
lead where one step past both texts does (`Position.past_append_iff`).

The index of a text never counts a line break twice. Between the two characters
of a line break it is still on the line that the break ends, one column behind
the carriage return, and at every other place it has the position past the text
before. So each character moves the position on, by a column or to a later line
(`LineIndex.position_next`), and of two places the later one has the greater
line, or the same line and the greater column (`LineIndex.position_lt`).

Key definitions: `Text.CutsBreak`, `Position.lineColumn`.
Key theorems: `Position.past_past_of_cutsBreak`, `Position.past_append_iff`,
`LineIndex.position_of_cutsBreak`, `LineIndex.position_lt`,
`LineIndex.agrees_with_past`.
-/
import Mathlib.Data.Prod.Lex
import OpenScad.Proofs.Position.Index
import OpenScad.Proofs.Position.Moved

namespace OpenScad

/-- The last character of the first text and the first one of the second are one line break. -/
def Text.CutsBreak (s t : List Char) : Prop := s.getLast? = some '\r' ∧ t.head? = some '\n'

namespace Position

/-! ### Going past a text in two steps -/

/-- **The second step counts a line break again** that the seam cuts in two, and so leads to the
same place one line further down. -/
theorem past_past_of_cutsBreak (p : Position) {s t : List Char} (h : Text.CutsBreak s t) :
    (p.past s).past t = (p.past (s ++ t)).moved (origin.below 0) := by
  obtain ⟨u, rfl⟩ := List.getLast?_eq_some_iff.mp h.1
  obtain ⟨v, rfl⟩ := List.head?_eq_some_iff.mp h.2
  have honce : p.past (u ++ ['\r'] ++ '\n' :: v) = ((p.past u).below 2).past v := by
    rw [List.append_assoc, p.past_append (by simp), List.singleton_append, past_pair]
  have htwice : (p.past (u ++ ['\r'])).past ('\n' :: v) =
      (((p.past u).below 1).below 1).past v := by
    rw [p.past_append (by simp), past_break _ (.inl rfl) (by simp),
      past_break _ (.inr rfl) (by simp)]
    rfl
  calc (p.past (u ++ ['\r'])).past ('\n' :: v)
      = (((p.past u).below 1).below 1).past v := htwice
    _ = (((p.past u).below 2).moved (origin.below 0)).past v := rfl
    _ = (((p.past u).below 2).past v).moved (origin.below 0) := past_moved _ _ v
    _ = (p.past (u ++ ['\r'] ++ '\n' :: v)).moved (origin.below 0) := by rw [honce]

/-- **Going past two texts in turn is going past both, except across a line break that the seam
cuts in two.** There, the two ways end on neighbouring lines, and in the same column and at the
same offset. -/
theorem past_append_iff (p : Position) (s t : List Char) :
    (p.past (s ++ t) = (p.past s).past t ↔ ¬ Text.CutsBreak s t) ∧
    (Text.CutsBreak s t →
      ((p.past s).past t).line = (p.past (s ++ t)).line + 1 ∧
      ((p.past s).past t).column = (p.past (s ++ t)).column ∧
      ((p.past s).past t).offset = (p.past (s ++ t)).offset) := by
  have hcut (h : Text.CutsBreak s t) :
      ((p.past s).past t).line = (p.past (s ++ t)).line + 1 ∧
      ((p.past s).past t).column = (p.past (s ++ t)).column ∧
      ((p.past s).past t).offset = (p.past (s ++ t)).offset := by
    rw [p.past_past_of_cutsBreak h]
    exact ⟨rfl, rfl, rfl⟩
  refine ⟨⟨fun hsame h => ?_, fun h => p.past_append (not_and.mp h)⟩, hcut⟩
  have hline := (hcut h).1
  rw [hsame] at hline
  exact absurd hline (Nat.ne_of_lt (Nat.lt_succ_self _))

/-- The line and then the column of a position. -/
def lineColumn (p : Position) : ℕ ×ₗ ℕ := toLex (p.line, p.column)

theorem lineColumn_lt_right (p : Position) : p.lineColumn < p.right.lineColumn :=
  Prod.Lex.toLex_lt_toLex.mpr (.inr ⟨rfl, Nat.lt_succ_self p.column⟩)

theorem lineColumn_lt_below (p : Position) (n : Nat) : p.lineColumn < (p.below n).lineColumn :=
  Prod.Lex.toLex_lt_toLex.mpr (.inl (Nat.lt_succ_self p.line))

/-- The number of lines that one goes down past a text is that of its line breaks. -/
theorem line_past_eq (p : Position) (text : List Char) :
    (p.past text).line + 1 = p.line + (Text.splitLines text).length := by
  unfold past
  rcases htext : Text.splitLines text with - | ⟨first, - | ⟨next, more⟩⟩
  · exact absurd htext (Text.splitLines_ne_nil text)
  · rfl
  · simp only [List.length_cons]
    omega

end Position

namespace LineIndex

/-! ### Places between two characters -/

variable {front rest : List Char}

/-- Offsets past the end of the text stand for its end. -/
theorem position_of_min {text : List Char} {byte : Nat}
    (h : byteLength front = min byte (byteLength text)) :
    (ofText text).position text byte = (ofText text).position text (byteLength front) := by
  have hsame : min byte (ofText text).size = min (byteLength front) (ofText text).size := by
    simp only [ofText]
    omega
  simp only [position, hsame]

/-- **Between the characters of a line break,** the index is one column behind the carriage
return. -/
theorem position_of_cutsBreak (u : List Char) (h : rest.head? = some '\n') :
    (ofText (u ++ ['\r'] ++ rest)).position (u ++ ['\r'] ++ rest) (byteLength (u ++ ['\r'])) =
      (Position.origin.past u).right := by
  obtain ⟨v, rfl⟩ := List.head?_eq_some_iff.mp h
  have hlt : ∀ s ∈ startsFrom (byteLength u) u.length (['\r'] ++ '\n' :: v),
      byteLength (u ++ ['\r']) < s.byte := by
    intro s hs
    have hbytes : byteLength (u ++ ['\r']) = byteLength u + 1 := byteLength_append u ['\r']
    rw [List.singleton_append, startsFrom_pair] at hs
    rcases List.mem_cons.mp hs with rfl | hs
    · simp only
      omega
    · have := lt_byte_of_mem hs
      omega
  obtain ⟨hline, hcolumn, hoffset⟩ := position_on_line (by simp) hlt
  rw [List.append_assoc]
  refine Position.eq_of_coordinates hline hcolumn (hoffset.trans ?_)
  simp only [Position.right, Position.offset_past, Position.origin, List.length_singleton,
    Nat.zero_add]

/-- The position has as many characters before it as the text before the place. -/
theorem offset_position (front rest : List Char) :
    ((ofText (front ++ rest)).position (front ++ rest) (byteLength front)).offset =
      front.length := by
  by_cases hcut : Text.CutsBreak front rest
  · obtain ⟨u, rfl⟩ := List.getLast?_eq_some_iff.mp hcut.1
    rw [position_of_cutsBreak u hcut.2, List.length_append]
    simp only [Position.right, Position.offset_past, Position.origin, Nat.zero_add,
      List.length_singleton]
  · rw [position_eq_past (not_and.mp hcut), Position.offset_past]
    exact Nat.zero_add _

/-- The position is the one past the text before the place, unless the place cuts a line break in
two. -/
theorem position_eq_past_iff :
    (ofText (front ++ rest)).position (front ++ rest) (byteLength front) =
      Position.origin.past front ↔ ¬ Text.CutsBreak front rest := by
  refine ⟨fun hsame hcut => ?_, fun hcut => position_eq_past (not_and.mp hcut)⟩
  obtain ⟨u, rfl⟩ := List.getLast?_eq_some_iff.mp hcut.1
  have hbelow : Position.origin.past (u ++ ['\r']) = (Position.origin.past u).below 1 := by
    rw [Position.past_append _ (by simp)]
    rfl
  rw [position_of_cutsBreak u hcut.2, hbelow] at hsame
  have hline : (Position.origin.past u).line = (Position.origin.past u).line + 1 :=
    congrArg Position.line hsame
  omega

/-- **A character moves the place on,** by a column or to a later line. -/
theorem position_next (front : List Char) (c : Char) (rest : List Char) :
    let text := front ++ c :: rest
    ((ofText text).position text (byteLength front)).lineColumn <
      ((ofText text).position text (byteLength (front ++ [c]))).lineColumn := by
  intro text
  have htext : text = front ++ [c] ++ rest := by simp [text]
  by_cases hhere : Text.CutsBreak front (c :: rest)
  · -- the line feed of a line break of two characters
    obtain ⟨u, rfl⟩ := List.getLast?_eq_some_iff.mp hhere.1
    obtain rfl : c = '\n' := Option.some.inj hhere.2
    have hbehind : Position.origin.past (u ++ ['\r'] ++ ['\n']) =
        (Position.origin.past u).below 2 := by
      rw [List.append_assoc, Position.past_append _ (by simp)]
      rfl
    have hlater : (ofText text).position text (byteLength (u ++ ['\r'] ++ ['\n'])) =
        Position.origin.past (u ++ ['\r'] ++ ['\n']) := by
      rw [htext]
      exact position_eq_past (by simp)
    rw [hlater, hbehind, position_of_cutsBreak u hhere.2]
    exact Prod.Lex.toLex_lt_toLex.mpr (.inl (Nat.lt_succ_self _))
  · have hplace : (ofText text).position text (byteLength front) = .past .origin front :=
      position_eq_past (not_and.mp hhere)
    rw [hplace]
    by_cases hnext : Text.CutsBreak (front ++ [c]) rest
    · -- the carriage return of a line break of two characters
      obtain rfl : c = '\r' := by simpa using hnext.1
      rw [htext, position_of_cutsBreak front hnext.2]
      exact Position.lineColumn_lt_right _
    · have hseam : front.getLast? = some '\r' → [c].head? ≠ some '\n' := not_and.mp hhere
      rw [htext, position_eq_past (not_and.mp hnext), Position.past_append _ hseam]
      by_cases hc : c = '\r' ∨ c = '\n'
      · rw [Position.past_break _ hc (by simp)]
        exact Position.lineColumn_lt_below _ 1
      · rw [Position.past_char _ hc]
        exact Position.lineColumn_lt_right _

/-- **Of two places, the later one has the greater line and column.** -/
theorem position_lt (front : List Char) (c : Char) (more rest : List Char) :
    let text := front ++ c :: (more ++ rest)
    ((ofText text).position text (byteLength front)).lineColumn <
      ((ofText text).position text (byteLength (front ++ c :: more))).lineColumn := by
  induction more generalizing front c with
  | nil => exact position_next front c rest
  | cons d more ih =>
    have hlater := ih (front ++ [c]) d
    simp only [List.append_assoc, List.cons_append, List.nil_append] at hlater ⊢
    exact lt_trans (position_next front c (d :: (more ++ rest))) hlater

/-- There are as many lines as starts of lines, the first one included. -/
theorem length_splitLines (text : List Char) :
    (Text.splitLines text).length = (ofText text).lineCount := by
  have hline := line_past text Position.origin 0 0
  have hlines := Position.origin.line_past_eq text
  simp only [lineCount, ofText]
  omega

/-- **The index agrees with going past the text.** At a byte offset between two characters, where
offsets past the end stand for the end, its position has as many characters before it as the text
has there. It is the position past that text, unless the offset cuts a line break in two: then it
is one column behind the position of the carriage return. Line and column increase with the
offset, and the lines are those of the text. -/
theorem agrees_with_past (text : List Char) :
    (∀ byte front rest, text = front ++ rest → byteLength front = min byte (byteLength text) →
      ((ofText text).position text byte).offset = front.length ∧
      ((ofText text).position text byte = .past .origin front ↔ ¬ Text.CutsBreak front rest) ∧
      ∀ u, front = u ++ ['\r'] → rest.head? = some '\n' →
        (ofText text).position text byte =
          ((ofText text).position text (byteLength u)).right) ∧
    (∀ front longer, front <+: text → longer <+: text → byteLength front < byteLength longer →
      ((ofText text).position text (byteLength front)).lineColumn <
        ((ofText text).position text (byteLength longer)).lineColumn) ∧
    (ofText text).lineCount = (Text.splitLines text).length := by
  refine ⟨?_, ?_, (length_splitLines text).symm⟩
  · rintro byte front rest rfl hbyte
    rw [position_of_min hbyte]
    refine ⟨offset_position front rest, position_eq_past_iff, ?_⟩
    rintro u rfl hrest
    have hreturn : (ofText (u ++ '\r' :: rest)).position (u ++ '\r' :: rest) (byteLength u) =
        Position.origin.past u := position_eq_past (by simp)
    rw [position_of_cutsBreak u hrest, List.append_assoc, List.singleton_append, hreturn]
  · rintro front longer hfront ⟨rest, rfl⟩ hlt
    rcases List.prefix_or_prefix_of_prefix hfront (List.prefix_append longer rest) with
      ⟨more, rfl⟩ | ⟨more, rfl⟩
    · cases more with
      | nil =>
        rw [List.append_nil] at hlt
        exact absurd hlt (Nat.lt_irrefl _)
      | cons c more =>
        rw [List.append_assoc]
        exact position_lt front c more rest
    · rw [byteLength_append] at hlt
      exact absurd hlt (Nat.not_lt.mpr (Nat.le_add_right _ _))

/-- A character of two bytes is one column, and the carriage return behind it another. -/
example : (ofText ['\u00e9', '\r', '\n']).position ['\u00e9', '\r', '\n'] 3 =
    (Position.origin.past ['\u00e9']).right := by
  decide

end LineIndex
end OpenScad
