/-
# The grammar

Statements are assignments, uses and inclusions of paths, blocks, and comments.
Expressions have six levels of binary operators, all grouping to the left, over
prefix operators, which group to the right, over literals, names and
parentheses.

Every level marks its match as an operation, also where no operator follows, so
that a lone literal stands inside one operation for each level.

Key definitions: `Grammar.expression`, `Grammar.statement`, `Grammar.program`.
-/
import OpenScad.Grammar.Parser
import OpenScad.Rule

namespace OpenScad
namespace Grammar

/-! ### Operators -/

/-- The binary operators of each level, the tightest first. -/
def levels : List (List TokenKind) :=
  [[.star, .slash, .percent],
   [.plus, .minus],
   [.less, .lessEqual, .greater, .greaterEqual],
   [.equal, .notEqual],
   [.andOp],
   [.orOp]]

/-- The operators that stand before their operand. -/
def prefixes : List TokenKind := [.bang, .minus, .plus]

/-! ### Single tokens -/

/-- A token of a kind. -/
def token (kind : TokenKind) : Parser Match :=
  .accept fun l => if l.kind = kind then some (.token l.token) else none

/-- A token of one of several kinds, as a group of its own. -/
def operator (kinds : List TokenKind) : Parser Match :=
  .accept fun l => if l.kind ∈ kinds then some (Match.token l.token).grouped else none

/-- A token of a kind, as the only part of a rule. -/
def terminal (kind : TokenKind) (rule : Rule) : Parser Match :=
  .map (fun m => .rule rule [m]) (token kind)

/-! ### Expressions -/

/-- An operation between two operands. -/
def binary (left : Match) (tail : Match × Match) : Match :=
  .rule .operation [left, tail.1, tail.2]

/-- One level of binary operators over the next tighter one. -/
def binaryLevel (operand : Parser Match) (kinds : List TokenKind) : Parser Match :=
  .bind operand fun first =>
    .map (fun tails => tails.foldl binary (.rule .operation [first]))
      (.many (.bind (operator kinds) fun op => .map (fun right => (op, right)) operand))

/-- An expression between parentheses. -/
def parenthesized (expression : Parser Match) : Parser Match :=
  .bind (token .openParen) fun opening =>
    .bind expression fun inner =>
      .map (fun closing => .rule .parenthesized [opening, inner, closing]) (token .closeParen)

/-- A literal, a name, or an expression between parentheses. -/
def primary (expression : Parser Match) : Parser Match :=
  .map Match.grouped
    (.choice
      [terminal .number .number, terminal .string .string, terminal .trueWord .boolean,
       terminal .falseWord .boolean, terminal .undefWord .undefined,
       terminal .identifier .identifier, parenthesized expression])

/-- Prefix operators before a primary, at most one for each token of a list. -/
def unaryWithin (primary : Parser Match) : List Lexeme → Parser Match
  | [] => .map (fun operand => .rule .operation [operand]) primary
  | _ :: bound =>
    .orElse
      (.bind (operator prefixes) fun op =>
        .map (fun operand => .rule .operation [op, operand]) (unaryWithin primary bound))
      (.map (fun operand => .rule .operation [operand]) primary)

/-- Prefix operators before a primary. -/
def unary (primary : Parser Match) : Parser Match := fun i ls => unaryWithin primary ls i ls

/-- All levels of binary operators over an operand. -/
def overLevels (operand : Parser Match) : Parser Match := levels.foldl binaryLevel operand

/-- An expression whose parentheses nest less deep than a list of tokens is long. -/
def expressionWithin : List Lexeme → Parser Match
  | [], i, ls => Parser.fail i ls
  | _ :: bound, i, ls => overLevels (unary (primary (expressionWithin bound))) i ls

/-- An expression. Every pair of parentheses takes a token, so that the tokens themselves
bound the nesting. -/
def expression : Parser Match := fun i ls => expressionWithin ls i ls

/-! ### Statements -/

/-- A name, an equals sign, an expression and a semicolon. -/
def assignment : Parser Match :=
  .bind (terminal .identifier .identifier) fun name =>
    .bind (token .assign) fun equals =>
      .bind expression fun value =>
        .map (fun semicolon => .rule .assignment [name, equals, value, semicolon])
          (token .semicolon)

/-- A keyword and a path, with or without a semicolon. -/
def pathStatement (keyword : TokenKind) (rule : Rule) : Parser Match :=
  .bind (token keyword) fun word =>
    .bind (terminal .path .path) fun file =>
      .map (fun semicolon => .rule rule [word, file, .ofOption semicolon])
        (.optional (token .semicolon))

/-- Statements between braces. -/
def block (statement : Parser Match) : Parser Match :=
  .bind (token .openBrace) fun opening =>
    .bind (.many statement) fun statements =>
      .map (fun closing => .rule .block [opening, .group statements, closing])
        (token .closeBrace)

/-- A statement whose blocks nest less deep than a list of tokens is long. -/
def statementWithin : List Lexeme → Parser Match
  | [], i, ls => Parser.fail i ls
  | _ :: bound, i, ls =>
    Parser.map (fun m => .rule .statement [m.grouped])
      (.choice
        [pathStatement .useWord .usePath, pathStatement .includeWord .includePath, assignment,
         block (statementWithin bound), terminal .lineComment .lineComment,
         terminal .blockComment .blockComment]) i ls

/-- A statement. Every block takes a token, so that the tokens themselves bound the
nesting. -/
def statement : Parser Match := fun i ls => statementWithin ls i ls

/-- Statements up to the end. -/
def program : Parser Match :=
  .bind (.many statement) fun statements =>
    .map (fun _ => .rule .program [.group statements]) .atEnd

end Grammar
end OpenScad
