/-
# Tokens and gaps tile a source

A source is made of its tokens and of the gaps around them: blanks, a token,
blanks, and so on (`tiles_of_lex`). A token stands at the position past
everything before it, and ends at the position past that and its own text. The
index of lines gives the same start for the number of bytes before the token,
and from the end of a token one gets past the next gap to the start of the next
token.

Key definitions: `Text.interleave`, `Lexer.before`, `Lexeme.StandsBehind`.
Key theorems: `Lexer.Run.tiles`, `tiles_of_lex`.
-/
import OpenScad.Proofs.Lexer.Places
import OpenScad.Proofs.Position.Index

namespace OpenScad

/-! ### Gaps and texts in turn -/

/-- The first gap, the first text, the next gap and so on, up to the last gap. -/
def Text.interleave : List (List Char) → List (List Char) → List Char
  | [], _ => []
  | gap :: _, [] => gap
  | gap :: gaps, text :: texts => gap ++ (text ++ interleave gaps texts)

/-- What comes before the token with an index: the gaps and the tokens up to there. -/
def Lexer.before (gaps : List (List Char)) (ls : List Lexeme) (i : Nat) : List Char :=
  Text.interleave (gaps.take (i + 1)) ((ls.take i).map Lexeme.text)

/-- The token stands right behind a text, and does not go on with the text's last line break. -/
structure Lexeme.StandsBehind (l : Lexeme) (front : List Char) : Prop where
  text_ne_nil : l.text ≠ []
  head?_ne : l.text.head? ≠ some '\n'
  getLast?_ne : l.text.getLast? ≠ some '\r'
  position : l.token.position = .ok (.past .origin front)
  endPosition : l.token.endPosition .exact = .ok (.past .origin (front ++ l.text))

namespace Lexer

theorem isBlank_iff {c : Char} : isBlank c = true ↔ c ∈ [' ', '\t', '\r', '\n', '\x0c'] := by
  simp [isBlank, or_assoc]

variable {gap : List Char} {gaps : List (List Char)} {l : Lexeme} {ls : List Lexeme}

theorem before_succ (i : Nat) :
    before (gap :: gaps) (l :: ls) (i + 1) = gap ++ (l.text ++ before gaps ls i) := by
  simp only [before, List.take_succ_cons, List.map_cons, Text.interleave]

/-- Before the next token come those before this one, this one, and the gap between the two. -/
theorem before_next {i : Nat} {next : List Char} (hl : ls[i]? = some l)
    (hgap : gaps[i + 1]? = some next) :
    before gaps ls (i + 1) = before gaps ls i ++ l.text ++ next := by
  induction i generalizing gaps ls with
  | zero =>
    obtain ⟨first, gaps, rfl⟩ : ∃ first more, gaps = first :: more := by
      cases gaps with
      | nil => cases hgap
      | cons first gaps => exact ⟨first, gaps, rfl⟩
    cases ls with
    | nil => cases hl
    | cons m ls =>
      cases hl
      cases gaps with
      | nil => cases hgap
      | cons second gaps =>
        cases hgap
        simp [before, Text.interleave]
  | succ i ih =>
    cases gaps with
    | nil => cases hgap
    | cons first gaps =>
      cases ls with
      | nil => cases hl
      | cons m ls => rw [before_succ, before_succ, ih hl hgap]; simp

/-- The tokens of what is left of a text and the gaps around them make up the text, and each
stands behind what comes before it. -/
theorem Run.tiles {allowed : Bool} {start : Position} {text : List Char}
    (h : Run allowed start text ls) : ∀ front : List Char, start = Position.origin.past front →
    front.getLast? ≠ some '\r' →
    ∃ gaps : List (List Char), gaps.length = ls.length + 1 ∧
      (∀ gap ∈ gaps, ∀ c ∈ gap, isBlank c = true) ∧
      text = Text.interleave gaps (ls.map Lexeme.text) ∧
      ∀ i l, ls[i]? = some l → l.StandsBehind (front ++ before gaps ls i) ∧
        ∃ rest, text = before gaps ls i ++ (l.text ++ rest) := by
  intro front hstart hseam
  refine h.induction_behind ?blank ?token front hstart hseam
  case blank =>
    intro allowed front gap blank
    exact ⟨[gap], rfl, List.forall_mem_singleton.mpr blank, rfl, fun i l hl => nomatch hl⟩
  case token =>
    intro allowed front gap value rest kind ls blank first found hvalue _ ih
    obtain ⟨hne, hlast⟩ := getLast?_of_tokenAt found
    obtain ⟨gaps, hlength, hblank, hrest, hstands⟩ := ih
    have here := @lies_starting kind _ _ rest hne hvalue
    generalize htoken : Lexeme.mk kind (.starting (.past .origin (front ++ gap))
      (String.ofList value)) = token at here ⊢
    have htext : token.text = value := htoken ▸ Lexeme.text_starting kind _ value
    refine ⟨gap :: gaps, by rw [List.length_cons, List.length_cons, hlength],
      List.forall_mem_cons.mpr ⟨blank, hblank⟩, ?_, fun i l hl => ?_⟩
    · rw [List.map_cons, Text.interleave, htext, ← hrest]
    · rcases i with - | i
      · cases hl
        have hbefore : before (gap :: gaps) (token :: ls) 0 = gap := by
          simp [before, Text.interleave]
        rw [hbefore]
        refine ⟨⟨?_, ?_, ?_, here.position, ?_⟩, rest, by rw [htext]⟩
        · rwa [htext]
        · rw [htext]
          exact head?_ne_lineFeed first
        · rwa [htext]
        · rw [htext]
          exact here.endPosition
      · obtain ⟨hl, more, hmore⟩ := hstands i l hl
        rw [before_succ, htext]
        refine ⟨?_, more, ?_⟩
        · simpa using hl
        · rw [hmore]
          simp

end Lexer

/-- **Tokens and gaps tile a source.** The source is its gaps and its tokens in turn, the gaps are
blank and the tokens are not empty. A token starts at the position past everything before it,
which is also the one that the index of lines gives for the number of bytes there, and ends at
the position past its text. Going on from its end past the next gap leads to the next token. -/
theorem tiles_of_lex {source : String} {ls : List Lexeme} (h : lex source = .ok ls) :
    ∃ gaps : List (List Char), gaps.length = ls.length + 1 ∧
      (∀ gap ∈ gaps, ∀ c ∈ gap, c ∈ [' ', '\t', '\r', '\n', '\x0c']) ∧
      source.toList = Text.interleave gaps (ls.map Lexeme.text) ∧
      ∀ i l, ls[i]? = some l →
        l.text ≠ [] ∧
        l.token.position = .ok (.past .origin (Lexer.before gaps ls i)) ∧
        l.token.position = .ok ((LineIndex.ofText source.toList).position source.toList
          (LineIndex.byteLength (Lexer.before gaps ls i))) ∧
        l.token.endPosition .exact = .ok (.past .origin (Lexer.before gaps ls i ++ l.text)) ∧
        ∀ gap next, gaps[i + 1]? = some gap → ls[i + 1]? = some next →
          next.token.position =
            .ok ((Position.origin.past (Lexer.before gaps ls i ++ l.text)).past gap) := by
  obtain ⟨gaps, hlength, hblank, hsource, hstands⟩ := (run_of_lex h).tiles [] rfl (by simp)
  refine ⟨gaps, hlength, fun gap hgap c hc => Lexer.isBlank_iff.mp (hblank gap hgap c hc),
    hsource, fun i l hl => ?_⟩
  obtain ⟨here, rest, hrest⟩ := hstands i l hl
  rw [List.nil_append] at here
  -- no line break is cut in two before the token, nor behind it
  have hindex : (LineIndex.ofText source.toList).position source.toList
      (LineIndex.byteLength (Lexer.before gaps ls i)) = .past .origin (Lexer.before gaps ls i) := by
    rw [hrest]
    refine LineIndex.position_eq_past fun _ => ?_
    rw [List.head?_append_of_ne_nil _ here.text_ne_nil]
    exact here.head?_ne
  refine ⟨here.text_ne_nil, here.position, hindex ▸ here.position, here.endPosition,
    fun gap next hgap hnext => ?_⟩
  obtain ⟨hnext, -⟩ := hstands (i + 1) next hnext
  have hseam : (Lexer.before gaps ls i ++ l.text).getLast? ≠ some '\r' := by
    rw [List.getLast?_append_of_ne_nil _ here.text_ne_nil]
    exact here.getLast?_ne
  rw [hnext.position, List.nil_append, Lexer.before_next hl hgap,
    Position.past_append _ fun hcr => absurd hcr hseam]

/-- The equals sign stands on the second line, past a name and a line break of two characters. -/
theorem tiles_of_lex_sample : ∃ ls gaps l, lex "a\r\n= 1;" = .ok ls ∧ ls.length = 4 ∧
    "a\r\n= 1;".toList = Text.interleave gaps (ls.map Lexeme.text) ∧ ls[1]? = some l ∧
    l.text = ['='] ∧ l.token.line = 2 ∧
    l.token.position = .ok (.past .origin (Lexer.before gaps ls 1)) := by
  have hcheck : (lex "a\r\n= 1;").toOption.map (fun ls =>
      (ls.length, ls[1]?.map fun l => (l.text, l.token.line))) = some (4, some (['='], 2)) := by
    decide +kernel
  obtain ⟨ls, hlex, htokens⟩ := exists_lex hcheck
  simp only [Prod.mk.injEq, Option.map_eq_some_iff] at htokens
  obtain ⟨hlength, l, hl, htext, hline⟩ := htokens
  obtain ⟨gaps, -, -, hsource, hplaces⟩ := tiles_of_lex hlex
  obtain ⟨-, hposition, -⟩ := hplaces 1 l hl
  exact ⟨ls, gaps, l, hlex, hlength, hsource, hl, htext, hline, hposition⟩

end OpenScad
