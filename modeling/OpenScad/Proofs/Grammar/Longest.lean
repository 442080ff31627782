/-
# The parsers take the longest phrase

Expressions and statements are recognised exactly where a phrase comes first,
and of all phrases that come first the longest one is taken. A program is
recognised if and only if its tokens are those of statements, one behind the
other (`takes_longest`). So neither the order of the alternatives nor the
greed of the repetitions ever cuts a phrase off.

What is shown for every phrase, by induction on it, is that its parser takes it
whole, and more only where what follows can continue it: operators that bind
tighter continue an operand, and a semicolon a use or an include. Parentheses
and blocks nest less deep than the phrase is long, so that the tokens suffice as
a bound.

Key definitions: `follow`, `recogniser`, `TakesLongest`.
Key theorems: `Phrase.takes`, `takes_longest`.
-/
import OpenScad.Proofs.Grammar.Derivation
import OpenScad.Proofs.Grammar.Taking

namespace OpenScad
namespace Grammar

/-! ### What continues a phrase -/

/-- The operators of the first `k` levels. -/
def tighter : Nat → List TokenKind
  | 0 => []
  | k + 1 => tighter k ++ operators k

theorem not_mem_tighter : ∀ {k : Nat} {kind : TokenKind}, kind ∈ operators k → kind ∉ tighter k
  | 0, kind, h => (by decide : ∀ kind ∈ operators 0, kind ∉ tighter 0) kind h
  | 1, kind, h => (by decide : ∀ kind ∈ operators 1, kind ∉ tighter 1) kind h
  | 2, kind, h => (by decide : ∀ kind ∈ operators 2, kind ∉ tighter 2) kind h
  | 3, kind, h => (by decide : ∀ kind ∈ operators 3, kind ∉ tighter 3) kind h
  | 4, kind, h => (by decide : ∀ kind ∈ operators 4, kind ∉ tighter 4) kind h
  | 5, kind, h => (by decide : ∀ kind ∈ operators 5, kind ∉ tighter 5) kind h
  | _ + 6, _, h => by simp [operators] at h

/-- The kinds that can continue a phrase of a nonterminal. -/
def follow : Nonterminal → List TokenKind
  | .primary => []
  | .level k => tighter k
  | .statement => [.semicolon]

/-! ### Single tokens -/

section Tokens

variable {l : Lexeme} {kind : TokenKind} {kinds : List TokenKind} {r : Rule}

theorem token_onlyOn (kind : TokenKind) : (token kind).OnlyOn kind := by
  intro i ls hls
  refine Parser.fails_accept fun l hl => if_neg ?_
  simpa using hls l hl

theorem terminal_onlyOn (kind : TokenKind) (r : Rule) : (terminal kind r).OnlyOn kind :=
  (token_onlyOn kind).map

theorem operator_fails {i : Nat} {ls : List Lexeme} (h : Stops kinds ls) :
    ((operator kinds) i ls).result = none :=
  Parser.fails_accept fun l hl => if_neg (h l hl)

theorem takes_token (h : l.kind = kind) : (token kind).Takes [] [l] :=
  Parser.takes_accept (if_pos h)

theorem takes_terminal (h : l.kind = kind) : (terminal kind r).Takes [] [l] :=
  (takes_token h).map

theorem takes_operator (h : l.kind ∈ kinds) : (operator kinds).Takes [] [l] :=
  Parser.takes_accept (if_pos h)

end Tokens

/-! ### Expressions -/

/-- The alternatives of a primary, with the kinds that they begin with. -/
def primaryRules (e : Parser Match) : List (TokenKind × Parser Match) :=
  [(.number, terminal .number .number), (.string, terminal .string .string),
   (.trueWord, terminal .trueWord .boolean), (.falseWord, terminal .falseWord .boolean),
   (.undefWord, terminal .undefWord .undefined), (.identifier, terminal .identifier .identifier),
   (.openParen, parenthesized e)]

theorem primaryRules_onlyOn (e : Parser Match) : ∀ x ∈ primaryRules e, x.2.OnlyOn x.1 := by
  simp only [primaryRules, List.forall_mem_cons, List.not_mem_nil, false_implies, implies_true,
    and_true, terminal_onlyOn, true_and]
  exact (token_onlyOn .openParen).bind

theorem takes_primary {e p : Parser Match} {l : Lexeme} {u : List Lexeme}
    (hmem : (l.kind, p) ∈ primaryRules e) (h : p.Takes [] (l :: u)) :
    (primary e).Takes [] (l :: u) := by
  have hnodup : (literals ++ [TokenKind.openParen]).Nodup := by decide
  have choice := Parser.Takes.choice (primaryRules_onlyOn e) hnodup hmem h
  exact choice.map

theorem takes_literal {e : Parser Match} {l : Lexeme} (h : l.kind ∈ literals) :
    (primary e).Takes [] [l] := by
  have hmem : ∃ r, (l.kind, terminal l.kind r) ∈ primaryRules e := by
    simp only [literals, List.mem_cons, List.not_mem_nil, or_false] at h
    rcases h with h | h | h | h | h | h <;> rw [h] <;> simp [primaryRules]
  obtain ⟨r, hmem⟩ := hmem
  exact takes_primary hmem (takes_terminal rfl)

theorem takes_parenthesized {e : Parser Match} {o c : Lexeme} {u : List Lexeme}
    (ho : o.kind = .openParen) (h : e.Takes (tighter 6) u) (hc : c.kind = .closeParen) :
    (primary e).Takes [] (o :: (u ++ [c])) := by
  refine takes_primary (p := parenthesized e) (by rw [ho]; simp [primaryRules]) ?_
  refine (takes_token ho).bind (fun w => stops_nil _) fun a => ?_
  refine h.bind (fun w => stops_cons ?_ w) fun b => (takes_token hc).map
  rw [hc]
  decide

theorem takes_unaryWithin {p : Parser Match} {u : List Lexeme} (h : p.Takes [] u)
    (hu : ∃ l v, u = l :: v ∧ l.kind ∈ primaryStarts) :
    ∀ {os : List Lexeme}, (∀ o ∈ os, o.kind ∈ prefixes) → ∀ bound : List Lexeme,
      os.length ≤ bound.length → (unaryWithin p bound).Takes [] (os ++ u)
  | [], _, [], _ => h.map
  | [], _, _ :: bound, _ => by
    refine Parser.Takes.orElse_of_fails (fun i w => ?_) h.map
    obtain ⟨l, v, rfl, hl⟩ := hu
    have hnot : ∀ kind ∈ primaryStarts, kind ∉ prefixes := by decide
    exact Parser.fails_bind (operator_fails (stops_cons (hnot _ hl) _))
  | o :: os, hos, _ :: bound, hbound => by
    have later := takes_unaryWithin h hu (fun x hx => hos x (List.mem_cons_of_mem o hx)) bound
      (by simpa using hbound)
    exact Parser.Takes.orElse ((takes_operator (hos o List.mem_cons_self)).bind
      (fun w => stops_nil _) fun a => later.map)

theorem takes_binaryLevel {operand : Parser Match} {k : Nat} {first : List Lexeme}
    {tails : List (Lexeme × List Lexeme)} (hoperand : operand.Sound (Parses (.level k)))
    (left : operand.Takes (tighter k) first) (signs : ∀ t ∈ tails, t.1.kind ∈ operators k)
    (operands : ∀ t ∈ tails, operand.Takes (tighter k) t.2) :
    (binaryLevel operand (operators k)).Takes (tighter (k + 1))
      (first ++ tails.flatMap fun t => t.1 :: t.2) := by
  have hmany := Parser.Takes.many (tail_sound hoperand)
    (fun i w hw => Parser.fails_bind (operator_fails hw))
    (List.forall_mem_map.mpr fun t ht => (takes_operator (signs t ht)).bind
      (fun w => stops_nil _) fun a => (operands t ht).map)
    (List.forall_mem_map.mpr fun t ht => ⟨t.1, t.2, rfl, not_mem_tighter (signs t ht)⟩)
  cases tails with
  | nil =>
    rw [List.flatMap_nil, List.append_nil]
    exact left.bind_nil fun a => hmany.map
  | cons t tails =>
    have hbegin : ∀ w, Stops (tighter k) (((t :: tails).flatMap fun t => t.1 :: t.2) ++ w) :=
      fun w => stops_cons (not_mem_tighter (signs t List.mem_cons_self)) _
    exact left.bind hbegin fun a => hmany.map

/-! ### Statements -/

/-- The alternatives of a statement, with the kinds that they begin with. -/
def statementRules (statement : Parser Match) : List (TokenKind × Parser Match) :=
  [(.useWord, pathStatement .useWord .usePath),
   (.includeWord, pathStatement .includeWord .includePath), (.identifier, assignment),
   (.openBrace, block statement),
   (.lineComment, terminal .lineComment .lineComment),
   (.blockComment, terminal .blockComment .blockComment)]

theorem statementRules_onlyOn (s : Parser Match) : ∀ x ∈ statementRules s, x.2.OnlyOn x.1 := by
  simp only [statementRules, List.forall_mem_cons, List.not_mem_nil, false_implies, implies_true,
    and_true, terminal_onlyOn]
  exact ⟨(token_onlyOn .useWord).bind, (token_onlyOn .includeWord).bind,
    (terminal_onlyOn .identifier .identifier).bind, (token_onlyOn .openBrace).bind⟩

/-- The parser of a nonterminal, where a list of tokens bounds how deep parentheses or
blocks nest inside. -/
def recogniser : Nonterminal → List Lexeme → Parser Match
  | .primary, bound => primary (expressionWithin bound)
  | .level k, bound => levelOver (unary (primary (expressionWithin bound))) k
  | .statement, bound =>
    .map (fun m => .rule .statement [m.grouped])
      (.choice ((statementRules (statementWithin bound)).map (·.2)))

theorem expressionWithin_cons (b : Lexeme) (bound : List Lexeme) :
    expressionWithin (b :: bound) = recogniser .expression bound := by
  funext i ls
  rw [expressionWithin, overLevels_eq, recogniser]

theorem statementWithin_cons (b : Lexeme) (bound : List Lexeme) :
    statementWithin (b :: bound) = recogniser .statement bound := rfl

theorem statementWithin_fails {ls : List Lexeme} (h : Stops statementStarts ls) :
    ∀ (bound : List Lexeme) (i : Nat), ((statementWithin bound) i ls).result = none
  | [], _ => rfl
  | b :: bound, i => by
    rw [statementWithin_cons, recogniser]
    exact Parser.fails_map (Parser.fails_choice (statementRules_onlyOn _) h)

theorem takes_rule {bound : List Lexeme} {p : Parser Match} {kinds : List TokenKind}
    {l : Lexeme} {u : List Lexeme} (hmem : (l.kind, p) ∈ statementRules (statementWithin bound))
    (h : p.Takes kinds (l :: u)) : (recogniser .statement bound).Takes kinds (l :: u) := by
  have hnodup : statementStarts.Nodup := by decide
  have choice := Parser.Takes.choice (statementRules_onlyOn _) hnodup hmem h
  exact choice.map

theorem takes_assignment {name equals semicolon : Lexeme} {u : List Lexeme}
    (hn : name.kind = .identifier) (he : equals.kind = .assign)
    (hu : expression.Takes (tighter 6) u) (hs : semicolon.kind = .semicolon) :
    assignment.Takes [] (name :: equals :: (u ++ [semicolon])) := by
  refine (takes_terminal hn).bind (fun w => stops_nil _) fun a => ?_
  refine (takes_token he).bind (fun w => stops_nil _) fun b => ?_
  refine hu.bind (fun w => stops_cons ?_ w) fun c => (takes_token hs).map
  rw [hs]
  decide

theorem takes_pathStatement {keyword : TokenKind} {r : Rule} {word file : Lexeme}
    {semicolon : Option Lexeme} (hw : word.kind = keyword) (hf : file.kind = .path)
    (hs : ∀ s ∈ semicolon, s.kind = .semicolon) :
    (pathStatement keyword r).Takes [.semicolon] (word :: file :: semicolon.toList) := by
  refine (takes_token hw).bind (fun w => stops_nil _) fun a => ?_
  refine (takes_terminal hf).bind (fun w => stops_nil _) fun b => ?_
  cases semicolon with
  | none =>
    exact (Parser.takes_optional_nil (token_sound .semicolon) (token_onlyOn .semicolon)).map
  | some s => exact ((takes_token (hs s rfl)).map.orElse.exact).map

theorem takes_block {statement : Parser Match} {o c : Lexeme} {parts : List (List Lexeme)}
    (hsound : statement.Sound (Parses .statement))
    (hfails : ∀ i w, Stops statementStarts w → (statement i w).result = none)
    (ho : o.kind = .openBrace) (hparts : ∀ u ∈ parts, statement.Takes [.semicolon] u)
    (hbegin : ∀ u ∈ parts, ∃ l v, u = l :: v ∧ l.kind ∉ [.semicolon])
    (hc : c.kind = .closeBrace) : (block statement).Takes [] (o :: (parts.flatten ++ [c])) := by
  refine (takes_token ho).bind (fun w => stops_nil _) fun a => ?_
  have hmany := Parser.Takes.many hsound hfails hparts hbegin
  refine hmany.bind (fun w => stops_cons ?_ w) fun b => (takes_token hc).map
  rw [hc]
  decide

/-! ### Phrases -/

/-- A parser that its own tokens bound takes what it takes within large enough bounds. -/
theorem takes_of_within (within : List Lexeme → Parser Match) {kinds : List TokenKind}
    {u : List Lexeme} (h : ∀ bound, u.length ≤ bound.length → (within bound).Takes kinds u) :
    Parser.Takes (fun i ls => within ls i ls) kinds u :=
  fun i w => h (u ++ w) (by rw [List.length_append]; omega) i w

theorem takes_expressionWithin {u : List Lexeme} (hne : u ≠ [])
    (h : ∀ bound, u.length ≤ bound.length + 1 →
      (recogniser .expression bound).Takes (tighter 6) u) :
    ∀ bound, u.length ≤ bound.length → (expressionWithin bound).Takes (tighter 6) u
  | [], hbound => absurd (List.length_eq_zero_iff.mp (Nat.le_zero.mp hbound)) hne
  | b :: bound, hbound => by
    rw [expressionWithin_cons]
    exact h bound hbound

theorem takes_statementWithin {u : List Lexeme} (hne : u ≠ [])
    (h : ∀ bound, u.length ≤ bound.length + 1 →
      (recogniser .statement bound).Takes [.semicolon] u) :
    ∀ bound, u.length ≤ bound.length → (statementWithin bound).Takes [.semicolon] u
  | [], hbound => absurd (List.length_eq_zero_iff.mp (Nat.le_zero.mp hbound)) hne
  | b :: bound, hbound => by
    rw [statementWithin_cons]
    exact h bound hbound

theorem Phrase.ne_nil {n : Nonterminal} {u : List Lexeme} (h : Phrase n u) : u ≠ [] := by
  have : ∃ l v, u = l :: v := by
    cases n with
    | primary => exact h.first_primary.imp fun l ⟨v, hu, _⟩ => ⟨v, hu⟩
    | level k => exact h.first_level.imp fun l ⟨v, hu, _⟩ => ⟨v, hu⟩
    | statement => exact h.first_statement.imp fun l ⟨v, hu, _⟩ => ⟨v, hu⟩
  obtain ⟨l, v, rfl⟩ := this
  exact List.cons_ne_nil l v

theorem Phrase.first_not_semicolon {u : List Lexeme} (h : Phrase .statement u) :
    ∃ l v, u = l :: v ∧ l.kind ∉ [.semicolon] := by
  have hnot : ∀ kind ∈ statementStarts, kind ∉ [.semicolon] := by decide
  obtain ⟨l, v, hu, hl⟩ := h.first_statement
  exact ⟨l, v, hu, hnot _ hl⟩

theorem operand_sound (bound : List Lexeme) (k : Nat) :
    (recogniser (.level k) bound).Sound (Parses (.level k)) :=
  levelOver_sound (unary_sound (primary_sound (expressionWithin_sound bound))) k

/-- **The parser of a nonterminal takes every phrase of it**, and more only where what
follows can continue the phrase. -/
theorem Phrase.takes {n : Nonterminal} {u : List Lexeme} (h : Phrase n u) :
    ∀ bound : List Lexeme, u.length ≤ bound.length + 1 →
      (recogniser n bound).Takes (follow n) u := by
  induction h with
  | literal kind => exact fun bound _ => takes_literal kind
  | @parentheses o c u opening inner closing ih =>
    intro bound hbound
    have hlength : u.length ≤ bound.length := by
      rw [List.length_cons, List.length_append] at hbound
      omega
    exact takes_parenthesized opening (takes_expressionWithin inner.ne_nil ih bound hlength) closing
  | @unary os u signs operand ih =>
    intro bound hbound
    rw [List.length_append] at hbound
    have hprimary := ih bound (by omega)
    refine takes_of_within (unaryWithin (primary (expressionWithin bound))) fun bound' hbound' => ?_
    rw [List.length_append] at hbound'
    exact takes_unaryWithin hprimary operand.first_primary signs bound' (by omega)
  | @binary k first tails left signs operands ihl ihr =>
    intro bound hbound
    rw [List.length_append] at hbound
    have htails : ∀ t ∈ tails, (recogniser (.level k) bound).Takes (tighter k) t.2 := by
      intro t ht
      have hsub := List.sublist_flatten_of_mem (List.mem_map_of_mem (f := fun t => t.1 :: t.2) ht)
      have hle := hsub.length_le
      rw [← List.flatMap_def, List.length_cons] at hle
      exact ihr t ht bound (by omega)
    exact takes_binaryLevel (operand_sound bound k) (ihl bound (by omega)) signs htails
  | @assignment name equals semicolon u name_kind equals_kind value semicolon_kind ih =>
    intro bound hbound
    have hvalue : expression.Takes (tighter 6) u :=
      takes_of_within expressionWithin (takes_expressionWithin value.ne_nil ih)
    have := takes_assignment name_kind equals_kind hvalue semicolon_kind
    exact takes_rule (by rw [name_kind]; simp [statementRules])
      this.exact
  | @path word file semicolon word_kind file_kind semicolon_kind =>
    intro bound hbound
    simp only [List.mem_cons, List.not_mem_nil, or_false] at word_kind
    rcases word_kind with hw | hw
    · exact takes_rule (by rw [hw]; simp [statementRules])
        (takes_pathStatement (r := .usePath) hw file_kind semicolon_kind)
    · exact takes_rule (by rw [hw]; simp [statementRules])
        (takes_pathStatement (r := .includePath) hw file_kind semicolon_kind)
  | @block o c parts opening statements closing ih =>
    intro bound hbound
    have hparts : ∀ u ∈ parts, (statementWithin bound).Takes [.semicolon] u := by
      intro u hu
      have hle := (List.sublist_flatten_of_mem hu).length_le
      rw [List.length_cons, List.length_append] at hbound
      exact takes_statementWithin (statements u hu).ne_nil (ih u hu) bound (by omega)
    have hbegin : ∀ u ∈ parts, ∃ l v, u = l :: v ∧ l.kind ∉ [.semicolon] :=
      fun u hu => (statements u hu).first_not_semicolon
    have := takes_block (statementWithin_sound bound)
      (fun i w hw => statementWithin_fails hw bound i) opening hparts hbegin closing
    exact takes_rule (by rw [opening]; simp [statementRules])
      this.exact
  | @comment l kind =>
    intro bound _
    simp only [List.mem_cons, List.not_mem_nil, or_false] at kind
    rcases kind with hl | hl
    · exact takes_rule (by rw [hl]; simp [statementRules])
        (takes_terminal (r := .lineComment) hl).exact
    · exact takes_rule (by rw [hl]; simp [statementRules])
        (takes_terminal (r := .blockComment) hl).exact

/-! ### The longest phrase -/

/-- The parser succeeds if and only if some tokens at the front form a word of the language,
and then it takes the longest such word. -/
def TakesLongest {α : Type} (p : Parser α) (L : List Lexeme → Prop) : Prop :=
  ∀ i ls, ((p i ls).result.isSome ↔ ∃ u, u <+: ls ∧ L u) ∧
    ∀ a j rest, (p i ls).result = some (a, j, rest) →
      ∃ u, ls = u ++ rest ∧ j = i + u.length ∧ L u ∧ ∀ v, v <+: ls → L v → v.length ≤ u.length

/-- A parser that takes only words of a language, and takes every word of it, takes the
longest. -/
theorem takesLongest_of_takes {α : Type} {p : Parser α} {L : List Lexeme → Prop}
    {kinds : List TokenKind} (hsound : p.Sound fun u _ => L u) (h : ∀ u, L u → p.Takes kinds u) :
    TakesLongest p L := by
  intro i ls
  -- a word at the front is taken, so what is left is behind it
  have taken : ∀ v, v <+: ls → L v →
      ∃ a j rest, (p i ls).result = some (a, j, rest) ∧ rest.length + v.length ≤ ls.length := by
    rintro v ⟨w, rfl⟩ hv
    obtain ⟨x, rest, rfl, ⟨a, j, hr⟩, -⟩ := h v hv i w
    refine ⟨a, j, rest, hr, ?_⟩
    simp only [List.length_append]
    omega
  refine ⟨⟨fun hsome => ?_, fun ⟨u, hu, hL⟩ => ?_⟩, fun a j rest hr => ?_⟩
  · obtain ⟨⟨a, j, rest⟩, hr⟩ := Option.isSome_iff_exists.mp hsome
    obtain ⟨u, rfl, -, hL⟩ := hsound i ls a j rest hr
    exact ⟨u, List.prefix_append u rest, hL⟩
  · obtain ⟨a, j, rest, hr, -⟩ := taken u hu hL
    rw [hr]
    rfl
  · obtain ⟨u, hu, hj, hL⟩ := hsound i ls a j rest hr
    refine ⟨u, hu, hj, hL, fun v hv hLv => ?_⟩
    obtain ⟨_, _, rest', hr', hle⟩ := taken v hv hLv
    rw [hr] at hr'
    cases hr'
    rw [hu, List.length_append] at hle
    omega

theorem takes_expression {u : List Lexeme} (h : Phrase .expression u) :
    expression.Takes (follow .expression) u :=
  takes_of_within expressionWithin (takes_expressionWithin h.ne_nil h.takes)

theorem takes_statement {u : List Lexeme} (h : Phrase .statement u) :
    statement.Takes (follow .statement) u :=
  takes_of_within statementWithin (takes_statementWithin h.ne_nil h.takes)

/-- Statements one behind the other are a program. -/
theorem exists_run_program {parts : List (List Lexeme)}
    (h : ∀ u ∈ parts, Phrase .statement u) : ∃ m, program.run parts.flatten = .ok m := by
  have hmany := Parser.Takes.many statement_sound
    (fun i w hw => statementWithin_fails hw w i) (fun u hu => takes_statement (h u hu))
    (fun u hu => (h u hu).first_not_semicolon)
  obtain ⟨x, rest, hw, ⟨ms, j, hr⟩, -⟩ := hmany 0 []
  obtain ⟨rfl, rfl⟩ := List.append_eq_nil_iff.mp hw.symm
  rw [List.append_nil] at hr
  have hprogram : (program 0 parts.flatten).result =
      some (.rule .program [.group ms], j, []) :=
    Parser.result_bind.mpr ⟨ms, j, [], hr, Parser.result_map.mpr ⟨(), rfl, rfl⟩⟩
  refine ⟨.rule .program [.group ms], ?_⟩
  unfold Parser.run
  simp only [hprogram]

/-- **Expressions and statements are recognised exactly where a phrase comes first, and the
longest one is taken; a program is recognised exactly if it consists of statements.** -/
theorem takes_longest :
    TakesLongest expression (Phrase .expression) ∧ TakesLongest statement (Phrase .statement) ∧
    ∀ ls, (∃ m, program.run ls = .ok m) ↔
      ∃ parts : List (List Lexeme), (∀ u ∈ parts, Phrase .statement u) ∧ ls = parts.flatten := by
  refine ⟨?_, ?_, fun ls => ⟨fun ⟨m, hm⟩ => ?_, fun ⟨parts, hparts, hls⟩ => ?_⟩⟩
  · exact takesLongest_of_takes (expression_sound.mono fun u m => Parses.phrase)
      fun u => takes_expression
  · exact takesLongest_of_takes (statement_sound.mono fun u m => Parses.phrase)
      fun u => takes_statement
  · obtain ⟨parts, hparts, hls, -⟩ := program_sound hm
    exact ⟨parts.map (·.1), List.forall_mem_map.mpr fun x hx => (hparts x hx).phrase, hls⟩
  · rw [hls]
    exact exists_run_program hparts

end Grammar
end OpenScad
