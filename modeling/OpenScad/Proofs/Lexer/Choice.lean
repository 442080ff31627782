/-
# The longest text, and of equal ones the keyword

At its place, a token is a text of its kind's pattern. No longer text there
belongs to a kind that is allowed, and a text that is a keyword is not an
identifier. At most one kind and one text satisfy these rules (`Chosen.unique`),
so they fix the tokens of a source: with blanks between, at the positions where
they stand, there is one way to choose token after token (`ByPatterns.unique`),
and it is the scanner's (`chosen_of_lex`).

Key definitions: `Lexer.Chosen`, `Lexer.ByPatterns`.
Key theorems: `Lexer.chosen_of_tokenAt`, `Lexer.ByPatterns.unique`,
`Lexer.Run.byPatterns`, `chosen_of_lex`.
-/
import OpenScad.Proofs.Lexer.Kinds
import OpenScad.Proofs.Lexer.Places

namespace OpenScad

/-! ### Keywords -/

namespace TokenKind

/-- A keyword is the only text of its kind. -/
theorem matches_keyword {word : String × TokenKind} (hword : word ∈ keywords) {s : List Char} :
    word.2.pattern.Matches s ↔ s = word.1.toList := by
  have hspelling : ∀ word ∈ keywords, word.2.spelling? = some word.1.toList := by decide
  rw [pattern_of_spelling (hspelling word hword), Pattern.matches_literal]

theorem keyword_ne_identifier {kind : TokenKind} (h : kind ∈ keywords.map (·.2)) :
    kind ≠ .identifier := by
  rintro rfl
  exact absurd h (by decide)

/-- The keywords are listed before the identifiers. -/
theorem keyword_mem_takeWhile {word : String × TokenKind} (hword : word ∈ keywords)
    (allowed : Bool) : word.2 ∈ (candidates allowed).takeWhile (· ≠ identifier) := by
  have hall : ∀ allowed, ∀ word ∈ keywords,
      word.2 ∈ (candidates allowed).takeWhile (· ≠ identifier) := by decide
  exact hall allowed word hword

end TokenKind

namespace Lexer

variable {allowed : Bool} {source value : List Char} {kind : TokenKind} {n : Nat}

/-! ### What the scanner chooses -/

/-- Every text of a pattern at the front of a source is as long as the longest, or shorter. -/
theorem exists_longest {p : Pattern} {front : List Char} (hfront : front <+: source)
    (h : p.Matches front) : ∃ n, p.longest source = some n ∧ front.length ≤ n := by
  obtain ⟨rest, rfl⟩ := hfront
  have hlength : front.length ≤ (front ++ rest).length := by
    rw [List.length_append]
    exact Nat.le_add_right _ _
  have htake : (front ++ rest).take front.length = front := List.take_left
  have hl := p.longest_matches (front ++ rest)
  cases hr : p.longest (front ++ rest) with
  | none =>
    rw [hr] at hl
    exact absurd (htake.symm ▸ h) (hl front.length hlength)
  | some n =>
    rw [hr] at hl
    refine ⟨n, rfl, Nat.le_of_not_lt fun hlt => ?_⟩
    exact absurd (htake.symm ▸ h) (hl.2.2 front.length hlt hlength)

/-- The kinds listed before the chosen one have shorter texts there. -/
theorem lt_of_longestOf : ∀ {kinds : List TokenKind}, longestOf kinds source = some (kind, n) →
    ∀ k ∈ kinds.takeWhile (· ≠ kind), ∀ m, k.pattern.longest source = some m → m < n
  | [], _, k, hk, _, _ => absurd hk List.not_mem_nil
  | first :: kinds, h, k, hk, m, hm => by
    rw [List.takeWhile_cons] at hk
    rcases longestOf_cons h with ⟨rfl, -, -⟩ | ⟨hrest, hlt⟩
    · simp at hk
    · split at hk
      · rcases List.mem_cons.mp hk with rfl | hk
        · exact hlt m hm
        · exact lt_of_longestOf hrest k hk m hm
      · exact absurd hk List.not_mem_nil

/-- A kind and a text that may come next: a text of the kind at the front of the source, longer
than which there is none of any allowed kind. If the text is a keyword, then the kind is the
keyword's. -/
structure Chosen (allowed : Bool) (source : List Char) (kind : TokenKind) (value : List Char) :
    Prop where
  candidate : kind ∈ TokenKind.candidates allowed
  front : value <+: source
  spelled : kind.pattern.Matches value
  longest : ∀ other ∈ TokenKind.candidates allowed, ∀ longer, longer <+: source →
    other.pattern.Matches longer → longer.length ≤ value.length
  keyword : ∀ word ∈ TokenKind.keywords, value = word.1.toList → kind = word.2

/-- **The scanner chooses the longest text of any kind**, and of equal ones the keyword. -/
theorem chosen_of_tokenAt {rest : List Char}
    (h : tokenAt allowed (value ++ rest) = .ok (kind, value.length)) :
    Chosen allowed (value ++ rest) kind value := by
  have hfound := found_of_tokenAt h
  have hspelled : kind.pattern.Matches value := by
    have hmatches := (matches_of_tokenAt h).2
    rwa [List.take_left] at hmatches
  refine ⟨(mem_of_longestOf hfound).1, List.prefix_append _ _, hspelled, ?_, ?_⟩
  · intro other hother longer hfront hmatches
    obtain ⟨m, hm, hle⟩ := exists_longest hfront hmatches
    exact Nat.le_trans hle (le_of_longestOf hfound other hother m hm)
  · intro word hword hvalue
    have hkeyword := (TokenKind.matches_keyword hword).mpr hvalue
    rcases TokenKind.eq_of_matches hspelled hkeyword with heq | ⟨-, hidentifier⟩ | ⟨rfl, -⟩
    · exact heq
    · exact absurd hidentifier
        (TokenKind.keyword_ne_identifier (List.mem_map_of_mem hword))
    · -- the keyword is listed first and has the same text
      obtain ⟨m, hm, hle⟩ := exists_longest (List.prefix_append value rest) hkeyword
      have hlt := lt_of_longestOf hfound word.2 (TokenKind.keyword_mem_takeWhile hword allowed) m hm
      omega

/-! ### The choice is the only one -/

/-- Where a path is not chosen, the choice does not depend on whether one is allowed. -/
theorem Chosen.without_path (h : Chosen allowed source kind value) (hkind : kind ≠ .path) :
    Chosen false source kind value := by
  have hmem : ∀ other, other ∈ TokenKind.candidates allowed ↔
      (allowed = true ∧ other = .path) ∨ other ∈ TokenKind.candidates false := by
    intro other
    cases allowed <;> simp [TokenKind.candidates]
  refine ⟨?_, h.front, h.spelled, fun other hother => h.longest other ?_, h.keyword⟩
  · exact ((hmem kind).mp h.candidate).resolve_left fun hpath => hkind hpath.2
  · exact (hmem other).mpr (.inr hother)

/-- A token is not empty and does not begin with a blank. -/
theorem Chosen.exists_cons (h : Chosen allowed source kind value) :
    ∃ c more, value = c :: more ∧ isBlank c = false := by
  obtain ⟨c, more, rfl⟩ := List.exists_cons_of_ne_nil
    (Pattern.ne_nil_of_matches kind.pattern_nullable h.spelled)
  exact ⟨c, more, rfl, TokenKind.not_blank_of_matches h.spelled⟩

/-- An identifier does not share its text with a keyword that is chosen as well. -/
theorem Chosen.not_identifier {other : TokenKind} (h : Chosen allowed source .identifier value)
    (hother : other.pattern.Matches value) : other ∉ TokenKind.keywords.map (·.2) := by
  intro hmem
  obtain ⟨word, hword, rfl⟩ := List.mem_map.mp hmem
  have hidentifier := h.keyword word hword ((TokenKind.matches_keyword hword).mp hother)
  exact TokenKind.keyword_ne_identifier hmem hidentifier.symm

/-- **At a place, one kind and one text may come next at most.** -/
theorem Chosen.unique {kind' : TokenKind} {value' : List Char}
    (h : Chosen allowed source kind value) (h' : Chosen allowed source kind' value') :
    kind = kind' ∧ value = value' := by
  have hlength : value.length = value'.length := Nat.le_antisymm
    (h'.longest kind h.candidate value h.front h.spelled)
    (h.longest kind' h'.candidate value' h'.front h'.spelled)
  obtain rfl : value = value' :=
    (List.prefix_of_prefix_length_le h.front h'.front (Nat.le_of_eq hlength)).eq_of_length
      hlength
  refine ⟨?_, rfl⟩
  rcases TokenKind.eq_of_matches h.spelled h'.spelled with heq | ⟨hmem, rfl⟩ | ⟨rfl, hmem⟩
  · exact heq
  · exact absurd hmem (h'.not_identifier h.spelled)
  · exact absurd hmem (h.not_identifier h'.spelled)

/-! ### Token after token -/

/-- Tokens that are chosen one after the other from the text behind a front: blanks, a token that
stands past everything before it, and so on up to blanks at the end. -/
inductive ByPatterns : Bool → (front text : List Char) → List Lexeme → Prop where
  | blank {allowed : Bool} {front gap : List Char} (blank : ∀ c ∈ gap, isBlank c = true) :
      ByPatterns allowed front gap []
  | token {allowed : Bool} {front gap value rest : List Char} {kind : TokenKind}
      {ls : List Lexeme} (blank : ∀ c ∈ gap, isBlank c = true)
      (chosen : Chosen allowed (value ++ rest) kind value)
      (later : ByPatterns kind.announcesPath (front ++ gap ++ value) rest ls) :
      ByPatterns allowed front (gap ++ (value ++ rest))
        ({ kind, token := .starting (.past .origin (front ++ gap)) (String.ofList value) } :: ls)

variable {front text : List Char} {ls : List Lexeme}

/-- **Patterns fix the tokens of a text.** -/
theorem ByPatterns.unique {ls' : List Lexeme} (h : ByPatterns allowed front text ls)
    (h' : ByPatterns allowed front text ls') : ls = ls' := by
  have head {value rest : List Char} {allowed : Bool} {kind : TokenKind}
      (chosen : Chosen allowed (value ++ rest) kind value) :
      ∀ c ∈ (value ++ rest).head?, isBlank c = false := by
    obtain ⟨c, more, rfl, hc⟩ := chosen.exists_cons
    rintro d hd
    cases hd
    exact hc
  induction h generalizing ls' with
  | @blank allowed front gap blank =>
    generalize htext : gap = text at h'
    cases h' with
    | blank => rfl
    | @token _ _ gap' value rest kind ls' blank' chosen later =>
      obtain ⟨c, more, rfl, hc⟩ := chosen.exists_cons
      rw [blank c (by simp [htext])] at hc
      cases hc
  | @token allowed front gap value rest kind ls blank chosen later ih =>
    generalize htext : gap ++ (value ++ rest) = text at h'
    cases h' with
    | blank blank' =>
      obtain ⟨c, more, rfl, hc⟩ := chosen.exists_cons
      rw [blank' c (by simp [← htext])] at hc
      cases hc
    | @token _ _ gap' value' rest' kind' ls' blank' chosen' later' =>
      obtain rfl : gap = gap' := by
        rw [← takeWhile_gap blank (head chosen), htext, takeWhile_gap blank' (head chosen')]
      have hbody := List.append_cancel_left htext
      rw [← hbody] at chosen'
      obtain ⟨rfl, rfl⟩ := chosen.unique chosen'
      obtain rfl := List.append_cancel_left hbody
      rw [ih later']

/-- The tokens of a run are chosen one after the other. -/
theorem Run.byPatterns {start : Position} (h : Run allowed start text ls) :
    ∀ front : List Char, start = Position.origin.past front → front.getLast? ≠ some '\r' →
      ByPatterns allowed front text ls :=
  h.induction_behind .blank fun blank _ found _ _ ih => .token blank (chosen_of_tokenAt found) ih

/-- What is chosen is chosen where it stands. -/
theorem ByPatterns.chosen (h : ByPatterns allowed front text ls) :
    ∀ l ∈ ls, l.kind ≠ .path →
      Chosen false ((front ++ text).drop l.token.offset) l.kind l.text := by
  induction h with
  | blank => simp
  | @token allowed front gap value rest kind ls blank chosen later ih =>
    have htext : front ++ gap ++ value ++ rest = front ++ (gap ++ (value ++ rest)) := by simp
    rw [htext] at ih
    refine List.forall_mem_cons.mpr ⟨fun hkind => ?_, ih⟩
    have hdrop : (front ++ (gap ++ (value ++ rest))).drop
        (Position.origin.past (front ++ gap)).offset = value ++ rest := by
      rw [Position.offset_origin_past, ← List.append_assoc, List.drop_left]
    rw [Lexeme.text_starting]
    simp only [Token.starting, hdrop]
    exact chosen.without_path hkind

end Lexer

/-- **The tokens of a source are the longest texts of their patterns.** Where it stands, a token
that is not a path is a text of its kind's pattern, no longer text there belongs to any pattern,
and a keyword is not an identifier. A block comment ends with the first closing mark. The patterns
leave no other choice of tokens. -/
theorem chosen_of_lex {source : String} {ls : List Lexeme} (h : lex source = .ok ls) :
    (∀ l ∈ ls, l.kind ≠ .path →
      Lexer.Chosen false (source.toList.drop l.token.offset) l.kind l.text) ∧
    (∀ l ∈ ls, l.kind = .blockComment →
      ∃ body, l.text = '/' :: '*' :: body ∧ TokenKind.ClosesAtEnd body) ∧
    ∀ other, Lexer.ByPatterns false [] source.toList other ↔ other = ls := by
  have hpatterns := (run_of_lex h).byPatterns [] rfl (by simp)
  refine ⟨hpatterns.chosen, fun l hl hkind => ?_, fun other => ⟨fun hother => ?_, ?_⟩⟩
  · have hspelled := (proper_of_lex h l hl).spelled
    rw [hkind] at hspelled
    exact TokenKind.matches_blockComment_iff.mp hspelled
  · exact hother.unique hpatterns
  · rintro rfl
    exact hpatterns

/-- An exponent without digits is no part of a number, and a keyword that goes on is a name. -/
theorem chosen_of_lex_sample : ∃ ls, lex "1e+ use user" = .ok ls ∧
    ls.map (fun l => (l.kind, l.token.value)) = [(.number, "1"), (.identifier, "e"), (.plus, "+"),
      (.useWord, "use"), (.identifier, "user")] ∧
    ∀ other, Lexer.ByPatterns false [] "1e+ use user".toList other ↔ other = ls := by
  have hcheck : (lex "1e+ use user").toOption.map
      (·.map fun l => (l.kind, l.token.value)) = some [(.number, "1"), (.identifier, "e"),
        (.plus, "+"), (.useWord, "use"), (.identifier, "user")] := by decide +kernel
  obtain ⟨ls, hlex, htokens⟩ := exists_lex hcheck
  exact ⟨ls, hlex, htokens, (chosen_of_lex hlex).2.2⟩

end OpenScad
