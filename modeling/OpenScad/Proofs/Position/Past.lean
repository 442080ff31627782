/-
# Going past a text in two steps

Going past one text and then past another is going past both, unless the first
ends with a carriage return and the second begins with a line feed: the two are
one line break, and going past it in two steps would count it twice
(`Position.past_append`).

The law is by induction on the first text, character by character. A character
that is no line break moves one column on; a line break, of one character or of
two, goes to the front of the next line.

Key definitions: `Position.right`, `Position.below`.
Key theorems: `Position.past_append`.
-/
import OpenScad.Position

namespace OpenScad

/-! ### Lines of one character more -/

namespace Text

theorem splitLines_char {c : Char} {rest : List Char} (h : ¬(c = '\r' ∨ c = '\n')) :
    splitLines (c :: rest) = consLine c (splitLines rest) := by
  rw [splitLines, if_neg h]
  rintro rest' rfl
  simp at h

theorem splitLines_break {c : Char} {rest : List Char} (h : c = '\r' ∨ c = '\n')
    (hr : c = '\r' → rest.head? ≠ some '\n') : splitLines (c :: rest) = [] :: splitLines rest := by
  rw [splitLines, if_pos h]
  rintro rest' rfl rfl
  exact hr rfl rfl

/-- What stands behind a character that does not begin a pair of line breaks. -/
theorem head?_ne_of_not_pair {c : Char} {rest : List Char}
    (h : ∀ rest', c = '\r' → rest = '\n' :: rest' → False) :
    c = '\r' → rest.head? ≠ some '\n' := by
  intro hc hr
  obtain ⟨rest', hrest⟩ := List.head?_eq_some_iff.mp hr
  exact h rest' hc hrest

/-- A text of a single line is that line. -/
theorem eq_of_splitLines {text line : List Char} (h : splitLines text = [line]) :
    line = text := by
  induction text using splitLines.induct generalizing line with
  | case1 => simpa [splitLines] using h.symm
  | case2 rest ih => simp [splitLines, splitLines_ne_nil] at h
  | case3 c rest hne hc ih =>
    rw [splitLines_break hc (head?_ne_of_not_pair hne)] at h
    simp [splitLines_ne_nil] at h
  | case4 c rest hne hc ih =>
    rw [splitLines_char hc] at h
    cases hrest : splitLines rest with
    | nil => exact absurd hrest (splitLines_ne_nil rest)
    | cons first more =>
      rw [hrest, consLine] at h
      obtain ⟨rfl, rfl⟩ := List.cons.inj h
      rw [ih hrest]

end Text

namespace Position

theorem eq_of_coordinates {p q : Position} (hline : p.line = q.line)
    (hcolumn : p.column = q.column) (hoffset : p.offset = q.offset) : p = q := by
  cases p
  cases q
  cases hline
  cases hcolumn
  cases hoffset
  rfl

/-! ### Going past one character -/

/-- The position one column on. -/
def right (p : Position) : Position :=
  { line := p.line, column := p.column + 1, offset := p.offset + 1 }

/-- The front of the next line, behind a line break of `n` characters. -/
def below (p : Position) (n : Nat) : Position :=
  { line := p.line + 1, column := 1, offset := p.offset + n }

theorem past_char (p : Position) {c : Char} {rest : List Char} (h : ¬(c = '\r' ∨ c = '\n')) :
    p.past (c :: rest) = p.right.past rest := by
  unfold past
  rw [Text.splitLines_char h]
  rcases hrest : Text.splitLines rest with - | ⟨first, - | ⟨next, more⟩⟩
  · exact absurd hrest (Text.splitLines_ne_nil rest)
  · simp only [Text.consLine, right, List.length_cons, Position.mk.injEq, true_and]
    omega
  · simp only [Text.consLine, right, List.length_cons, Position.mk.injEq, true_and]
    omega

/-- Past an empty first line, the rest is a text at the front of the next line. -/
theorem past_of_splitLines (p : Position) {text rest : List Char} {n : Nat}
    (h : Text.splitLines text = [] :: Text.splitLines rest)
    (hn : text.length = n + rest.length) : p.past text = (p.below n).past rest := by
  unfold past
  rw [h]
  rcases hrest : Text.splitLines rest with - | ⟨first, - | ⟨next, more⟩⟩
  · exact absurd hrest (Text.splitLines_ne_nil rest)
  · have := Text.eq_of_splitLines hrest
    subst this
    simp only [below, List.length_nil, List.getLast_singleton, Position.mk.injEq, true_and]
    omega
  · simp only [below, List.length_cons, List.getLast_cons_cons, Position.mk.injEq, true_and]
    omega

theorem past_break (p : Position) {c : Char} {rest : List Char} (h : c = '\r' ∨ c = '\n')
    (hr : c = '\r' → rest.head? ≠ some '\n') : p.past (c :: rest) = (p.below 1).past rest :=
  p.past_of_splitLines (Text.splitLines_break h hr) (by rw [List.length_cons]; omega)

theorem past_pair (p : Position) (rest : List Char) :
    p.past ('\r' :: '\n' :: rest) = (p.below 2).past rest :=
  p.past_of_splitLines (by rw [Text.splitLines])
    (by rw [List.length_cons, List.length_cons]; omega)

/-! ### Going past two texts -/

/-- Going past two texts in turn is going past both, unless they cut a line break in two. -/
theorem past_append (p : Position) {s t : List Char}
    (h : s.getLast? = some '\r' → t.head? ≠ some '\n') : p.past (s ++ t) = (p.past s).past t := by
  induction s using Text.splitLines.induct generalizing p with
  | case1 => rfl
  | case2 rest ih =>
    rw [List.cons_append, List.cons_append, past_pair, past_pair, ih]
    exact fun hlast => h (by simp [List.getLast?_cons, hlast])
  | case3 c rest hne hc ih =>
    have hpair := Text.head?_ne_of_not_pair hne
    have hpair' : c = '\r' → (rest ++ t).head? ≠ some '\n' := by
      rintro rfl
      cases rest with
      | nil => exact h rfl
      | cons d rest => exact hpair rfl
    rw [List.cons_append, past_break p hc hpair, past_break p hc hpair', ih]
    exact fun hlast => h (by simp [List.getLast?_cons, hlast])
  | case4 c rest hne hc ih =>
    rw [List.cons_append, past_char p hc, past_char p hc, ih]
    exact fun hlast => h (by simp [List.getLast?_cons, hlast])

example : (Position.origin.past ['\r']).past ['\n'] ≠ Position.origin.past ['\r', '\n'] := by
  decide

end Position
end OpenScad
