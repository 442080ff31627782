/-
# Tokens on lines of their own

A token does not need what follows it in its source: where its text stands
alone, or before a line feed, it is chosen again (`tokenAt_within`,
`tokenAt_append`). So the values of a source's tokens, with a line feed between
each two, are cut into the same tokens, at other places (`lex_relaid`). The line
feed matters: with a space there, a comment would go on over the next value, and
`<`, `a` and `>` behind a word that announces a path would be one.

Key definitions: `relaid`.
Key theorems: `Lexer.tokenAt_within`, `Lexer.Run.relaid`, `lex_relaid`.
-/
import OpenScad.Proofs.Lexer.Choice
import OpenScad.Proofs.Lexer.Joint

namespace OpenScad

/-- The values of tokens, with a line feed between each two. -/
def relaid (ls : List Lexeme) : String := "\n".intercalate (ls.map (·.token.value))

namespace Lexer

/-- **The token at a place stays where a source is cut off behind it.** -/
theorem tokenAt_within {allowed : Bool} {value rest more : List Char} {kind : TokenKind}
    (h : tokenAt allowed (value ++ (rest ++ more)) = .ok (kind, value.length)) :
    tokenAt allowed (value ++ rest) = .ok (kind, value.length) := by
  have hsame : value ++ rest ++ more = value ++ (rest ++ more) := List.append_assoc value rest more
  refine tokenAt_of_longest h (fun other hother => ?_) fun hopen =>
    hopen.trans (hsame ▸ List.prefix_append (value ++ rest) more)
  -- no text of any kind reaches past the value
  rw [← hsame]
  refine (Pattern.longest_append fun past hpast hfront hmatch => ?_).symm
  have hle := (chosen_of_tokenAt h).longest other hother (value ++ rest ++ past)
    (hsame ▸ (List.prefix_append_right_inj _).mpr hfront) hmatch
  have hpos : 0 < past.length := List.length_pos_iff.mpr hpast
  rw [List.length_append, List.length_append] at hle
  omega

/-- The token at a place is the token of its text alone. -/
theorem tokenAt_front {allowed : Bool} {value rest : List Char} {kind : TokenKind}
    (h : tokenAt allowed (value ++ rest) = .ok (kind, value.length)) :
    tokenAt allowed value = .ok (kind, value.length) := by
  have halone : tokenAt allowed (value ++ []) = .ok (kind, value.length) := tokenAt_within h
  rwa [List.append_nil] at halone

/-- The texts of a run's tokens with line feeds between are cut into the same tokens, wherever
they start. -/
theorem Run.relaid {allowed : Bool} {start : Position} {text : List Char} {ls : List Lexeme}
    (h : Run allowed start text ls) : ∀ start' : Position, ∃ ls',
    Run allowed start' (List.intercalate ['\n'] (ls.map Lexeme.text)) ls' ∧
      ls'.map (fun l => (l.kind, l.token.value)) = ls.map fun l => (l.kind, l.token.value) := by
  have noBlank : ∀ c ∈ ([] : List Char), isBlank c = true := fun c hc => nomatch hc
  induction h with
  | blank => exact fun start' => ⟨[], .blank noBlank, rfl⟩
  | @token allowed start gap value rest kind ls _ first found later ih =>
    intro start'
    have halone := tokenAt_front found
    rw [List.map_cons, Lexeme.text_starting]
    cases ls with
    | nil =>
      have hrun : Run allowed start' ([] ++ (value ++ []))
          [{ kind, token := .starting (start'.past []) (String.ofList value) }] :=
        .token noBlank first (by rwa [List.append_nil]) (.blank noBlank)
      rw [List.nil_append, List.append_nil] at hrun
      rw [List.map_nil, List.intercalate_singleton]
      exact ⟨_, hrun, rfl⟩
    | cons next ls =>
      obtain ⟨ls', hlater, hsame⟩ := ih (((start'.past []).past value).past ['\n'])
      have hbehind := hlater.behind_blank (by simp [isBlank]) (by simp)
      have hrun := Run.token noBlank first (tokenAt_append halone _) hbehind
      rw [List.map_cons, List.intercalate_cons_cons, List.append_assoc]
      exact ⟨_, hrun, congrArg ((kind, String.ofList value) :: ·) hsame⟩

end Lexer

/-- **Tokens keep their kinds and values on lines of their own.** Where a source has tokens, their
values with a line feed between each two have tokens again, of the same kinds and values. -/
theorem lex_relaid {source : String} {ls : List Lexeme} (h : lex source = .ok ls) :
    ∃ ls', lex (relaid ls) = .ok ls' ∧
      ls'.map (fun l => (l.kind, l.token.value)) = ls.map fun l => (l.kind, l.token.value) := by
  obtain ⟨ls', hrun, hsame⟩ := (run_of_lex h).relaid .origin
  have htext : (relaid ls).toList = List.intercalate ['\n'] (ls.map Lexeme.text) := by
    rw [relaid, String.toList_intercalate, List.map_map]
    rfl
  refine ⟨ls', ?_, hsame⟩
  rw [lex, htext]
  exact Lexer.scan_of_run hrun

/-- A path stays a path, and marks behind `include` that stand on two lines do not become one. -/
theorem lex_relaid_sample : ∃ ls ls', lex "use <a b>; include <\na> 1 // end" = .ok ls ∧
    relaid ls = "use\n<a b>\n;\ninclude\n<\na\n>\n1\n// end" ∧
    lex "use\n<a b>\n;\ninclude\n<\na\n>\n1\n// end" = .ok ls' ∧
    ls'.map (fun l => (l.kind, l.token.value)) = ls.map (fun l => (l.kind, l.token.value)) := by
  have hcheck : (lex "use <a b>; include <\na> 1 // end").toOption.map relaid =
      some "use\n<a b>\n;\ninclude\n<\na\n>\n1\n// end" := by decide +kernel
  obtain ⟨ls, hlex, htext⟩ := exists_lex hcheck
  obtain ⟨ls', hlex', hsame⟩ := lex_relaid hlex
  exact ⟨ls, ls', hlex, htext, htext ▸ hlex', hsame⟩

end OpenScad
