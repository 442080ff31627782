/-
# From a source to its tree

A source is cut into tokens, checked for its nesting, matched against the
grammar, and reduced to a tree. The first of these steps that fails gives the
error.

A token opens a level too many if the open brackets before and at it, together
with the run of prefix operators that it ends, exceed the limit. Brackets and
runs are counted without regard to the grammar.

Key definitions: `ParseError`, `Nesting`, `tooDeep?`, `parse`.
-/
import OpenScad.Lexer
import OpenScad.Grammar
import OpenScad.Rule.Build

namespace OpenScad

/-! ### Errors -/

/-- Why a source has no tree. -/
inductive ParseError where
  /-- The source cannot be cut into tokens. -/
  | lexical (cause : LexError)
  /-- The tokens match no program; no token found is the end of the source. -/
  | unexpected (found : Option String) (position : Option Position)
  /-- Brackets or prefix operators nest too deep. -/
  | tooDeep (limit : Nat) (position : Option Position)
  /-- A match cannot be built. -/
  | building (cause : NodeError)
  deriving DecidableEq, Repr

namespace ParseError

/-- Where a message says that something is, if that is known. -/
def describedAt : Option Position → String
  | some p => p.described
  | none => ""

/-- The message of an error. -/
def message : ParseError → String
  | lexical cause => cause.message
  | unexpected (some found) position =>
    "Unexpected token " ++ Text.quoted found ++ describedAt position
  | unexpected none _ => "Unexpected end of input"
  | tooDeep limit position =>
    "Nesting deeper than " ++ toString limit ++ " levels" ++ describedAt position
  | building cause => "Failed to build node: " ++ cause.message

/-- The message of the error that caused this one. -/
def cause? : ParseError → Option String
  | lexical cause => some cause.message
  | building cause => some cause.message
  | _ => none

/-- The error for the token that a program cannot go on with. -/
def ofFound : Option Lexeme → ParseError
  | some l => unexpected (some l.token.value) l.token.position.toOption
  | none => unexpected none none

end ParseError

/-! ### Nesting -/

/-- The open brackets and the run of prefix operators at a token. -/
structure Nesting where
  brackets : Nat := 0
  run : Nat := 0
  deriving DecidableEq, Repr

namespace Nesting

/-- The deepest nesting that a source may have. -/
def limit : Nat := 32

/-- The nesting after one more token. -/
def next (nesting : Nesting) (kind : TokenKind) : Nesting :=
  { brackets :=
      if kind = .openParen ∨ kind = .openBrace then nesting.brackets + 1
      else if kind = .closeParen ∨ kind = .closeBrace then nesting.brackets - 1
      else nesting.brackets
    run := if kind ∈ Grammar.prefixes then nesting.run + 1 else 0 }

/-- The levels that count against the limit. -/
def levels (nesting : Nesting) : Nat := nesting.brackets + nesting.run

/-- The first token that opens a level too many, after a given nesting. -/
def tooDeepFrom? (nesting : Nesting) : List Lexeme → Option Lexeme
  | [] => none
  | l :: rest =>
    let here := nesting.next l.kind
    if limit < here.levels then some l else tooDeepFrom? here rest

/-- The first token that opens a level too many. -/
def tooDeep? (lexemes : List Lexeme) : Option Lexeme := tooDeepFrom? {} lexemes

end Nesting

/-! ### Parsing -/

/-- The match of a program; the nesting is checked first. -/
def matchProgram (lexemes : List Lexeme) : Except ParseError Match :=
  match Nesting.tooDeep? lexemes with
  | some l => .error (.tooDeep Nesting.limit l.token.position.toOption)
  | none => (Grammar.program.run lexemes).mapError .ofFound

/-- The tree of a match whose tokens stand in one source. No sum is beyond the end of the source,
so additions are exact. -/
def Match.toNode (m : Match) : Except NodeError Node := do
  (← m.reduce .exact).intoNode

/-- The tree of a source. -/
def parse (source : String) : Except ParseError Node := do
  let lexemes ← (lex source).mapError .lexical
  let found ← matchProgram lexemes
  found.toNode.mapError .building

end OpenScad
