/-
# The language of expressions and statements

The phrases of the language as lists of tokens, given by a context-free grammar
that says nothing of how they are found: a level of binary operators is a
non-empty list of phrases of the next tighter level with operators of the level
between them, and a block is a list of statements between braces. The kinds of
the tokens alone decide.

Key definitions: `Nonterminal`, `operators`, `Phrase`.
Key theorems: `Phrase.first_primary`, `Phrase.first_level`, `Phrase.first_statement`.
-/
import OpenScad.Grammar

namespace OpenScad
namespace Grammar

/-- What a list of tokens can be a phrase of. -/
inductive Nonterminal where
  | primary
  /-- An expression without operators outside parentheses that are looser than the first
  `k` levels; at level 0 only prefix operators are left. -/
  | level (k : Nat)
  | statement
  deriving DecidableEq, Repr

/-- An expression may have operators of all six levels. -/
abbrev Nonterminal.expression : Nonterminal := .level 6

/-- The binary operators of a level; the tightest level comes first. -/
def operators : Nat → List TokenKind
  | 0 => [.star, .slash, .percent]
  | 1 => [.plus, .minus]
  | 2 => [.less, .lessEqual, .greater, .greaterEqual]
  | 3 => [.equal, .notEqual]
  | 4 => [.andOp]
  | 5 => [.orOp]
  | _ => []

/-- The kinds of literals and names. -/
def literals : List TokenKind :=
  [.number, .string, .trueWord, .falseWord, .undefWord, .identifier]

/-- The phrases of the language. -/
inductive Phrase : Nonterminal → List Lexeme → Prop where
  | literal {l : Lexeme} (kind : l.kind ∈ literals) : Phrase .primary [l]
  | parentheses {o c : Lexeme} {u : List Lexeme} (opening : o.kind = .openParen)
      (inner : Phrase .expression u) (closing : c.kind = .closeParen) :
      Phrase .primary (o :: (u ++ [c]))
  | unary {os u : List Lexeme} (signs : ∀ o ∈ os, o.kind ∈ [.bang, .minus, .plus])
      (operand : Phrase .primary u) : Phrase (.level 0) (os ++ u)
  | binary {k : Nat} {first : List Lexeme} {tails : List (Lexeme × List Lexeme)}
      (left : Phrase (.level k) first) (signs : ∀ t ∈ tails, t.1.kind ∈ operators k)
      (operands : ∀ t ∈ tails, Phrase (.level k) t.2) :
      Phrase (.level (k + 1)) (first ++ tails.flatMap fun t => t.1 :: t.2)
  | assignment {name equals semicolon : Lexeme} {u : List Lexeme}
      (name_kind : name.kind = .identifier) (equals_kind : equals.kind = .assign)
      (value : Phrase .expression u) (semicolon_kind : semicolon.kind = .semicolon) :
      Phrase .statement (name :: equals :: (u ++ [semicolon]))
  | path {word file : Lexeme} {semicolon : Option Lexeme}
      (word_kind : word.kind ∈ [.useWord, .includeWord]) (file_kind : file.kind = .path)
      (semicolon_kind : ∀ s ∈ semicolon, s.kind = .semicolon) :
      Phrase .statement (word :: file :: semicolon.toList)
  | block {o c : Lexeme} {parts : List (List Lexeme)} (opening : o.kind = .openBrace)
      (statements : ∀ u ∈ parts, Phrase .statement u) (closing : c.kind = .closeBrace) :
      Phrase .statement (o :: (parts.flatten ++ [c]))
  | comment {l : Lexeme} (kind : l.kind ∈ [.lineComment, .blockComment]) : Phrase .statement [l]

/-! ### How phrases begin -/

/-- The kinds that a primary begins with. -/
def primaryStarts : List TokenKind := .openParen :: literals

/-- The kinds that a statement begins with. -/
def statementStarts : List TokenKind :=
  [.useWord, .includeWord, .identifier, .openBrace, .lineComment, .blockComment]

theorem Phrase.first_primary {u : List Lexeme} (h : Phrase .primary u) :
    ∃ l v, u = l :: v ∧ l.kind ∈ primaryStarts := by
  cases h with
  | literal kind => exact ⟨_, [], rfl, List.mem_cons_of_mem _ kind⟩
  | parentheses opening => exact ⟨_, _, rfl, opening ▸ List.mem_cons_self⟩

theorem Phrase.first_level : ∀ {k : Nat} {u : List Lexeme}, Phrase (.level k) u →
    ∃ l v, u = l :: v ∧ l.kind ∈ prefixes ++ primaryStarts
  | 0, _, @Phrase.unary os _ signs operand => by
    cases os with
    | nil =>
      obtain ⟨l, v, hu, hl⟩ := operand.first_primary
      exact ⟨l, v, hu, List.mem_append_right _ hl⟩
    | cons o os =>
      exact ⟨o, _, rfl, List.mem_append_left _ (signs o List.mem_cons_self)⟩
  | _ + 1, _, .binary left _ _ => by
    obtain ⟨l, v, rfl, hl⟩ := left.first_level
    exact ⟨l, _, rfl, hl⟩

theorem Phrase.first_statement {u : List Lexeme} (h : Phrase .statement u) :
    ∃ l v, u = l :: v ∧ l.kind ∈ statementStarts := by
  cases h with
  | assignment name_kind => exact ⟨_, _, rfl, by rw [name_kind]; decide⟩
  | path word_kind =>
    refine ⟨_, _, rfl, ?_⟩
    simp only [List.mem_cons, List.not_mem_nil, or_false] at word_kind
    rcases word_kind with h | h <;> rw [h] <;> decide
  | block opening => exact ⟨_, _, rfl, by rw [opening]; decide⟩
  | comment kind =>
    refine ⟨_, [], rfl, ?_⟩
    simp only [List.mem_cons, List.not_mem_nil, or_false] at kind
    rcases kind with h | h <;> rw [h] <;> decide

/-! ### Longer lists of operands -/

/-- One more operator and operand keep a phrase of a level of binary operators. -/
theorem Phrase.append_operand {k : Nat} {u v : List Lexeme} {o : Lexeme}
    (hu : Phrase (.level (k + 1)) u) (ho : o.kind ∈ operators k) (hv : Phrase (.level k) v) :
    Phrase (.level (k + 1)) (u ++ o :: v) := by
  cases hu with
  | @binary _ first tails left signs operands =>
    have h : first ++ (tails.flatMap fun t => t.1 :: t.2) ++ o :: v =
        first ++ (tails ++ [(o, v)]).flatMap fun t => t.1 :: t.2 := by simp
    rw [h]
    refine .binary left (fun t ht => ?_) (fun t ht => ?_)
    · rcases List.mem_append.mp ht with ht | ht
      · exact signs t ht
      · rw [List.mem_singleton.mp ht]; exact ho
    · rcases List.mem_append.mp ht with ht | ht
      · exact operands t ht
      · rw [List.mem_singleton.mp ht]; exact hv

/-- A phrase of a level is one of every looser level. -/
theorem Phrase.looser {k : Nat} {u : List Lexeme} (h : Phrase (.level k) u) :
    Phrase (.level (k + 1)) u := by
  simpa using @Phrase.binary k u [] h (by simp) (by simp)

end Grammar
end OpenScad
