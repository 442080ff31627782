/-
# What the grammar recognises, with its matches

`Parses` relates the phrases of the language to the matches that the grammar
gives for them. Binary levels group to the left, so the match of a chain of
operands is a binary operation whose left side is the match of the shorter
chain. Whatever a parser of the grammar recognises is a phrase in this sense,
with its match.

Every later statement about matches of the grammar is an induction on
`Parses` and does not mention a parser.

Key definitions: `Parses`, `IsProgram`.
Key theorems: `expression_sound`, `statement_sound`, `program_sound`,
`Parses.phrase`.
-/
import OpenScad.Proofs.Grammar.Phrase
import OpenScad.Proofs.Grammar.Recognition

namespace OpenScad
namespace Grammar

/-- The rules of literals and names. -/
def literalRules : List (TokenKind × Rule) :=
  [(.number, .number), (.string, .string), (.trueWord, .boolean), (.falseWord, .boolean),
   (.undefWord, .undefined), (.identifier, .identifier)]

/-- The rules of statements of a keyword and a path. -/
def pathRules : List (TokenKind × Rule) := [(.useWord, .usePath), (.includeWord, .includePath)]

/-- The rules of comments. -/
def commentRules : List (TokenKind × Rule) :=
  [(.lineComment, .lineComment), (.blockComment, .blockComment)]

/-- The matches of phrases. -/
inductive Parses : Nonterminal → List Lexeme → Match → Prop where
  | literal {l : Lexeme} {r : Rule} (rule : (l.kind, r) ∈ literalRules) :
      Parses .primary [l] (Match.rule r [.token l.token]).grouped
  | parentheses {o c : Lexeme} {u : List Lexeme} {m : Match} (opening : o.kind = .openParen)
      (inner : Parses .expression u m) (closing : c.kind = .closeParen) :
      Parses .primary (o :: (u ++ [c]))
        (Match.rule .parenthesized [.token o.token, m, .token c.token]).grouped
  | operand {u : List Lexeme} {m : Match} (operand : Parses .primary u m) :
      Parses (.level 0) u (.rule .operation [m])
  | unary {o : Lexeme} {u : List Lexeme} {m : Match} (sign : o.kind ∈ prefixes)
      (operand : Parses (.level 0) u m) :
      Parses (.level 0) (o :: u) (.rule .operation [(Match.token o.token).grouped, m])
  | tighter {k : Nat} {u : List Lexeme} {m : Match} (operand : Parses (.level k) u m) :
      Parses (.level (k + 1)) u (.rule .operation [m])
  | binary {k : Nat} {u v : List Lexeme} {o : Lexeme} {a b : Match}
      (left : Parses (.level (k + 1)) u a) (sign : o.kind ∈ operators k)
      (right : Parses (.level k) v b) :
      Parses (.level (k + 1)) (u ++ o :: v)
        (.rule .operation [a, (Match.token o.token).grouped, b])
  | assignment {name equals semicolon : Lexeme} {u : List Lexeme} {m : Match}
      (name_kind : name.kind = .identifier) (equals_kind : equals.kind = .assign)
      (value : Parses .expression u m) (semicolon_kind : semicolon.kind = .semicolon) :
      Parses .statement (name :: equals :: (u ++ [semicolon]))
        (.rule .statement [(Match.rule .assignment [.rule .identifier [.token name.token],
          .token equals.token, m, .token semicolon.token]).grouped])
  | path {word file : Lexeme} {semicolon : Option Lexeme} {r : Rule}
      (rule : (word.kind, r) ∈ pathRules) (file_kind : file.kind = .path)
      (semicolon_kind : ∀ s ∈ semicolon, s.kind = .semicolon) :
      Parses .statement (word :: file :: semicolon.toList)
        (.rule .statement [(Match.rule r [.token word.token, .rule .path [.token file.token],
          .ofOption (semicolon.map (.token ·.token))]).grouped])
  | block {o c : Lexeme} {parts : List (List Lexeme × Match)} (opening : o.kind = .openBrace)
      (statements : ∀ x ∈ parts, Parses .statement x.1 x.2) (closing : c.kind = .closeBrace) :
      Parses .statement (o :: ((parts.map (·.1)).flatten ++ [c]))
        (.rule .statement [(Match.rule .block [.token o.token, .group (parts.map (·.2)),
          .token c.token]).grouped])
  | comment {l : Lexeme} {r : Rule} (rule : (l.kind, r) ∈ commentRules) :
      Parses .statement [l] (.rule .statement [(Match.rule r [.token l.token]).grouped])

/-- A list of tokens is a program with a match if it consists of statements. -/
def IsProgram (ls : List Lexeme) (m : Match) : Prop :=
  ∃ parts : List (List Lexeme × Match), (∀ x ∈ parts, Parses .statement x.1 x.2) ∧
    ls = (parts.map (·.1)).flatten ∧ m = .rule .program [.group (parts.map (·.2))]

theorem kind_mem_of_rule {rules : List (TokenKind × Rule)} {kind : TokenKind} {r : Rule}
    (h : (kind, r) ∈ rules) : kind ∈ rules.map (·.1) :=
  List.mem_map.mpr ⟨(kind, r), h, rfl⟩

/-- What is recognised with a match is a phrase. -/
theorem Parses.phrase {n : Nonterminal} {u : List Lexeme} {m : Match} (h : Parses n u m) :
    Phrase n u := by
  induction h with
  | literal rule => exact .literal (kind_mem_of_rule rule)
  | parentheses opening _ closing ih => exact .parentheses opening ih closing
  | operand _ ih => exact @Phrase.unary [] _ (by simp) ih
  | @unary o u m sign _ ih =>
    cases ih with
    | @unary os v signs operand =>
      refine @Phrase.unary (o :: os) _ (fun x hx => ?_) operand
      rcases List.mem_cons.mp hx with rfl | hx
      · exact sign
      · exact signs x hx
  | tighter _ ih => exact ih.looser
  | binary _ sign _ ihl ihr => exact ihl.append_operand sign ihr
  | assignment name_kind equals_kind _ semicolon_kind ih =>
    exact .assignment name_kind equals_kind ih semicolon_kind
  | path rule file_kind semicolon_kind =>
    exact .path (kind_mem_of_rule rule) file_kind semicolon_kind
  | block opening _ closing ih =>
    refine .block opening (fun u hu => ?_) closing
    obtain ⟨x, hx, rfl⟩ := List.mem_map.mp hu
    exact ih x hx
  | comment rule => exact .comment (kind_mem_of_rule rule)

/-! ### Single tokens -/

theorem token_sound (kind : TokenKind) : (token kind).Sound fun u m =>
    ∃ l : Lexeme, u = [l] ∧ l.kind = kind ∧ m = .token l.token := by
  refine Parser.sound_accept fun l a ha => ?_
  split at ha
  · rename_i hk
    cases ha
    exact ⟨l, rfl, hk, rfl⟩
  · cases ha

theorem operator_sound (kinds : List TokenKind) : (operator kinds).Sound fun u m =>
    ∃ o : Lexeme, u = [o] ∧ o.kind ∈ kinds ∧ m = (Match.token o.token).grouped := by
  refine Parser.sound_accept fun o a ha => ?_
  split at ha
  · rename_i hk
    cases ha
    exact ⟨o, rfl, hk, rfl⟩
  · cases ha

theorem terminal_sound (kind : TokenKind) (r : Rule) : (terminal kind r).Sound fun u m =>
    ∃ l : Lexeme, u = [l] ∧ l.kind = kind ∧ m = .rule r [.token l.token] := by
  refine (token_sound kind).map ?_
  rintro _ _ ⟨l, rfl, hl, rfl⟩
  exact ⟨l, rfl, hl, rfl⟩

/-! ### Expressions -/

/-- The first `k` levels of binary operators over an operand. -/
def levelOver (operand : Parser Match) : Nat → Parser Match
  | 0 => operand
  | k + 1 => binaryLevel (levelOver operand k) (operators k)

/-- The levels of the grammar, from the inside out. -/
theorem overLevels_eq (operand : Parser Match) : overLevels operand = levelOver operand 6 := rfl

/-- An operator and the operand behind it, as a level of binary operators repeats them. -/
def IsTail (k : Nat) (u : List Lexeme) (tail : Match × Match) : Prop :=
  ∃ (o : Lexeme) (v : List Lexeme), u = o :: v ∧ o.kind ∈ operators k ∧
    tail.1 = (Match.token o.token).grouped ∧ Parses (.level k) v tail.2

theorem tail_sound {operand : Parser Match} {k : Nat} (h : operand.Sound (Parses (.level k))) :
    (Parser.bind (operator (operators k)) fun op =>
      .map (fun right => (op, right)) operand).Sound (IsTail k) := by
  refine (operator_sound (operators k)).bind ?_
  rintro _ _ ⟨o, rfl, ho, rfl⟩
  exact h.map fun v m hv => ⟨o, v, rfl, ho, rfl, hv⟩

/-- Tails behind a phrase of a level make it longer, operation by operation. -/
theorem Parses.foldl_tails {k : Nat} : ∀ {parts : List (List Lexeme × (Match × Match))},
    (∀ x ∈ parts, IsTail k x.1 x.2) → ∀ {u : List Lexeme} {m : Match},
    Parses (.level (k + 1)) u m →
    Parses (.level (k + 1)) (u ++ (parts.map (·.1)).flatten)
      ((parts.map (·.2)).foldl Grammar.binary m)
  | [], _, u, m, hm => by simpa using hm
  | (w, tail) :: parts, h, u, m, hm => by
    obtain ⟨o, v, rfl, ho, ht, hv⟩ := h _ List.mem_cons_self
    simp only at ht hv
    have hstep : Parses (.level (k + 1)) (u ++ o :: v) (Grammar.binary m tail) := by
      rw [Grammar.binary, ht]
      exact .binary hm ho hv
    have := Parses.foldl_tails (fun x hx => h x (List.mem_cons_of_mem _ hx)) hstep
    simpa using this

theorem binaryLevel_sound {operand : Parser Match} {k : Nat}
    (h : operand.Sound (Parses (.level k))) :
    (binaryLevel operand (operators k)).Sound (Parses (.level (k + 1))) := by
  refine h.bind fun u m hm => (tail_sound h).many.map ?_
  rintro _ _ ⟨parts, hparts, rfl, rfl⟩
  exact Parses.foldl_tails hparts (.tighter hm)

theorem levelOver_sound {operand : Parser Match} (h : operand.Sound (Parses (.level 0))) :
    ∀ k : Nat, (levelOver operand k).Sound (Parses (.level k))
  | 0 => h
  | k + 1 => binaryLevel_sound (levelOver_sound h k)

theorem parenthesized_sound {e : Parser Match} (h : e.Sound (Parses .expression)) :
    (parenthesized e).Sound fun u m => Parses .primary u m.grouped := by
  refine (token_sound .openParen).bind ?_
  rintro _ _ ⟨o, rfl, ho, rfl⟩
  refine h.bind fun u m hm => (token_sound .closeParen).map ?_
  rintro _ _ ⟨c, rfl, hc, rfl⟩
  exact .parentheses ho hm hc

theorem primary_sound {e : Parser Match} (h : e.Sound (Parses .expression)) :
    (primary e).Sound (Parses .primary) := by
  have literal {kind : TokenKind} {r : Rule} (hr : (kind, r) ∈ literalRules) :
      (terminal kind r).Sound fun u m => Parses .primary u m.grouped := by
    refine (terminal_sound kind r).mono ?_
    rintro _ _ ⟨l, rfl, hl, rfl⟩
    exact .literal (hl ▸ hr)
  refine (Parser.sound_choice _ fun p hp => ?_).map fun _ _ hm => hm
  simp only [List.mem_cons, List.not_mem_nil, or_false] at hp
  rcases hp with rfl | rfl | rfl | rfl | rfl | rfl | rfl
  · exact literal (by decide)
  · exact literal (by decide)
  · exact literal (by decide)
  · exact literal (by decide)
  · exact literal (by decide)
  · exact literal (by decide)
  · exact parenthesized_sound h

theorem unaryWithin_sound {p : Parser Match} (h : p.Sound (Parses .primary)) :
    ∀ bound : List Lexeme, (unaryWithin p bound).Sound (Parses (.level 0))
  | [] => h.map fun _ _ hm => .operand hm
  | _ :: bound => by
    refine Parser.Sound.orElse ?_ (h.map fun _ _ hm => .operand hm)
    refine (operator_sound prefixes).bind ?_
    rintro _ _ ⟨o, rfl, ho, rfl⟩
    exact (unaryWithin_sound h bound).map fun _ _ hm => .unary ho hm

theorem unary_sound {p : Parser Match} (h : p.Sound (Parses .primary)) :
    (unary p).Sound (Parses (.level 0)) :=
  fun i ls => unaryWithin_sound h ls i ls

theorem expressionWithin_sound :
    ∀ bound : List Lexeme, (expressionWithin bound).Sound (Parses .expression)
  | [] => Parser.sound_fail
  | _ :: bound => by
    have operand := unary_sound (primary_sound (expressionWithin_sound bound))
    intro i ls
    rw [expressionWithin, overLevels_eq]
    exact levelOver_sound operand 6 i ls

theorem expression_sound : expression.Sound (Parses .expression) :=
  fun i ls => expressionWithin_sound ls i ls

/-! ### Statements -/

theorem assignment_sound :
    assignment.Sound fun u m => Parses .statement u (.rule .statement [m.grouped]) := by
  refine (terminal_sound .identifier .identifier).bind ?_
  rintro _ _ ⟨name, rfl, hn, rfl⟩
  refine (token_sound .assign).bind ?_
  rintro _ _ ⟨equals, rfl, he, rfl⟩
  refine expression_sound.bind fun u m hm => (token_sound .semicolon).map ?_
  rintro _ _ ⟨semicolon, rfl, hs, rfl⟩
  exact .assignment hn he hm hs

theorem pathStatement_sound {keyword : TokenKind} {r : Rule} (hr : (keyword, r) ∈ pathRules) :
    (pathStatement keyword r).Sound
      fun u m => Parses .statement u (.rule .statement [m.grouped]) := by
  refine (token_sound keyword).bind ?_
  rintro _ _ ⟨word, rfl, hw, rfl⟩
  refine (terminal_sound .path .path).bind ?_
  rintro _ _ ⟨file, rfl, hf, rfl⟩
  have optional_semicolon : (Parser.optional (token .semicolon)).Sound fun u m =>
      ∃ s : Option Lexeme, u = s.toList ∧ (∀ l ∈ s, l.kind = .semicolon) ∧
        m = s.map (.token ·.token) :=
    (token_sound .semicolon).optional
      (fun _ _ ⟨l, hu, hl, hm⟩ => ⟨some l, hu, by simpa using hl, by rw [hm]; rfl⟩)
      ⟨none, rfl, by simp, rfl⟩
  refine optional_semicolon.map ?_
  rintro _ _ ⟨semicolon, rfl, hs, rfl⟩
  exact .path (hw ▸ hr) hf hs

theorem block_sound {statement : Parser Match} (h : statement.Sound (Parses .statement)) :
    (block statement).Sound fun u m => Parses .statement u (.rule .statement [m.grouped]) := by
  refine (token_sound .openBrace).bind ?_
  rintro _ _ ⟨o, rfl, ho, rfl⟩
  refine h.many.bind fun u ms hms => (token_sound .closeBrace).map ?_
  rintro _ _ ⟨c, rfl, hc, rfl⟩
  obtain ⟨parts, hparts, rfl, rfl⟩ := hms
  exact .block ho hparts hc

theorem statementWithin_sound :
    ∀ bound : List Lexeme, (statementWithin bound).Sound (Parses .statement)
  | [] => Parser.sound_fail
  | _ :: bound => by
    have comment {kind : TokenKind} {r : Rule} (hr : (kind, r) ∈ commentRules) :
        (terminal kind r).Sound
          fun u m => Parses .statement u (.rule .statement [m.grouped]) := by
      refine (terminal_sound kind r).mono ?_
      rintro _ _ ⟨l, rfl, hl, rfl⟩
      exact .comment (hl ▸ hr)
    refine (Parser.sound_choice _ fun p hp => ?_).map fun _ _ hm => hm
    simp only [List.mem_cons, List.not_mem_nil, or_false] at hp
    rcases hp with rfl | rfl | rfl | rfl | rfl | rfl
    · exact pathStatement_sound (by decide)
    · exact pathStatement_sound (by decide)
    · exact assignment_sound
    · exact block_sound (statementWithin_sound bound)
    · exact comment (by decide)
    · exact comment (by decide)

theorem statement_sound : statement.Sound (Parses .statement) :=
  fun i ls => statementWithin_sound ls i ls

/-- A list of tokens that the grammar accepts is a program, with the match that it gives. -/
theorem program_sound {ls : List Lexeme} {m : Match} (h : program.run ls = .ok m) :
    IsProgram ls m := by
  unfold Parser.run at h
  simp only at h
  split at h
  · rename_i a j rest hr
    cases h
    obtain ⟨ms, k, mid, h1, h2⟩ := Parser.result_bind.mp hr
    obtain ⟨_, h3, rfl⟩ := Parser.result_map.mp h2
    obtain ⟨u, rfl, -, parts, hparts, rfl, rfl⟩ := statement_sound.many 0 ls ms k mid h1
    cases mid with
    | nil => exact ⟨parts, hparts, by rw [List.append_nil], rfl⟩
    | cons l mid => simp [Parser.atEnd] at h3
  · cases h

end Grammar
end OpenScad
