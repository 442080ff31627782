/-
# Sources that fit into memory

A source whose length is a word of the machine parses to one tree, whatever
additions do with sums that are no words: no position inside of it has such a
sum for a coordinate (`reduce_of_parse`).

A text of `n` characters takes no coordinate further than by `n`, so the end of a
token of the source fits. The ends are all that the arithmetic can change, and
the match of the tokens reduces to the same under all of them.

Key definitions: `Token.EndsIn`.
Key theorems: `Position.past_le`, `endsIn_of_lex`, `reduce_of_parse`.
-/
import OpenScad.Proofs.Grammar.Alike
import OpenScad.Proofs.Lexer.Tiling
import OpenScad.Proofs.Parse.Stages
import OpenScad.Proofs.Tree.Reduction

namespace OpenScad

/-! ### Positions in a text -/

namespace Position

variable {p : Position}

/-- A text takes the line and the column on by its length at most. -/
theorem past_le (h : p.Valid) (text : List Char) :
    (p.past text).line ≤ p.line + text.length ∧
      (p.past text).column ≤ p.column + text.length := by
  induction text using Text.splitLines.induct generalizing p with
  | case1 => exact ⟨Nat.le_refl _, Nat.le_refl _⟩
  | case2 rest ih =>
    have hcolumn := h.one_le_column
    obtain ⟨hline', hcolumn'⟩ := @ih (p.below 2) ⟨by simp [below], by simp [below]⟩
    rw [past_pair]
    simp only [below, List.length_cons] at hline' hcolumn' ⊢
    omega
  | case3 c rest hne hc ih =>
    have hcolumn := h.one_le_column
    obtain ⟨hline', hcolumn'⟩ := @ih (p.below 1) ⟨by simp [below], by simp [below]⟩
    rw [past_break p hc (Text.head?_ne_of_not_pair hne)]
    simp only [below, List.length_cons] at hline' hcolumn' ⊢
    omega
  | case4 c rest hne hc ih =>
    obtain ⟨hline', hcolumn'⟩ := @ih p.right ⟨h.one_le_line, by simp [right]⟩
    rw [past_char p hc]
    simp only [right, List.length_cons] at hline' hcolumn' ⊢
    omega

/-- Positions in a text have words for coordinates if its length is below the last word. -/
theorem fits_past_origin {text : List Char} (h : text.length + 1 < wordLimit) :
    (origin.past text).Fits := by
  obtain ⟨hline, hcolumn⟩ := past_le valid_origin text
  have horigin : origin.line = 1 ∧ origin.column = 1 ∧ origin.offset = 0 := ⟨rfl, rfl, rfl⟩
  have hoffset := offset_past origin text
  constructor <;> omega

end Position

/-! ### Tokens of a source -/

/-- The same token, past which there is a place that every arithmetic gives. -/
def Token.EndsIn (t t' : Token) : Prop :=
  t' = t ∧ ∃ stop, ∀ arith, t.endPosition arith = .ok stop

/-- The end of a token is a place in the source, so it fits where the source does. -/
theorem endsIn_of_lex {source : String} {ls : List Lexeme} (h : lex source = .ok ls)
    (hlength : source.toList.length + 1 < wordLimit) : ∀ l ∈ ls, l.token.EndsIn l.token := by
  intro l hl
  obtain ⟨start, stop, hlies⟩ := (inOrder_of_lex h).lies l hl
  have hstop : stop.Fits := by
    rw [hlies.stop_right]
    refine Position.fits_past_origin ?_
    rw [List.length_take]
    omega
  refine ⟨rfl, stop, fun arith => ?_⟩
  rw [Token.endPosition_of_exact hlies.endPosition, Position.inWords_of_fits hstop]

theorem tokensRelate_endsIn (arith arith' : Arithmetic) :
    TokensRelate Token.EndsIn Eq arith arith' := by
  constructor
  · rintro t t' ⟨rfl, -⟩
    rfl
  · rintro t t' ⟨rfl, -⟩
    exact outcomesAlike_same fun _ _ => rfl
  · rintro t t' ⟨rfl, stop, hstop⟩
    rw [hstop arith, hstop arith']
    exact .ok rfl

/-! ### Trees with the same positions -/

theorem Span.Alike.eq {s t : Span} (h : s.Alike Eq t) : s = t := by
  have endpoints {x y : Option Position} (h : Option.Rel Eq x y) : x = y := by
    cases h with
    | none => rfl
    | some hp => exact congrArg some hp
  cases s
  cases t
  exact congrArg₂ Span.mk (endpoints h.start) (endpoints h.stop)

/-- Trees that are alike and have the same positions are one tree. -/
theorem Node.Alike.eq {n n' : Node} (h : n.Alike Eq n') : n = n' := by
  induction h with
  | leaf _ span => rw [span.eq]
  | assignment _ _ span ihn ihv => rw [ihn, ihv, span.eq]
  | block _ span ih => rw [List.map_congr_left ih, span.eq]
  | binaryOperator _ _ span ihl ihr => rw [ihl, ihr, span.eq]
  | unaryOperator _ span ih => rw [ih, span.eq]
  | usePath _ span ih => rw [ih, span.eq]
  | includePath _ span ih => rw [ih, span.eq]

/-! ### Parsing -/

/-- **A source that fits into memory has one tree, however additions treat other sums.** The match
of its tokens reduces to the tree that parsing gives. -/
theorem reduce_of_parse {source : String} {root : Node} (h : parse source = .ok root)
    (hlength : source.toList.length + 1 < wordLimit) :
    ∃ ls m, lex source = .ok ls ∧ matchProgram ls = .ok m ∧
      ∀ arith, m.reduce arith = .ok (.node root) := by
  obtain ⟨ls, m, hlex, hdeep, hrun, hreduce⟩ := match_of_parse h
  have halike : List.Forall₂ (Lexeme.Alike Token.EndsIn) ls ls :=
    List.forall₂_same.mpr fun l hl => ⟨rfl, endsIn_of_lex hlex hlength l hl⟩
  obtain ⟨m', hm', hmatches⟩ := Grammar.program_tracks.run halike hrun
  obtain rfl : m' = m := Except.ok.inj (hm'.symm.trans hrun)
  have hprogram : matchProgram ls = .ok m' := by
    rw [matchProgram, hdeep, hrun]
    rfl
  refine ⟨ls, m', hlex, hprogram, fun arith => ?_⟩
  have houtcomes := hmatches.reduce (tokensRelate_endsIn .exact arith)
  rw [hreduce] at houtcomes
  generalize m'.reduce arith = outcome at houtcomes
  cases houtcomes with
  | ok data =>
    cases data with
    | node tree => rw [tree.eq]

end OpenScad
