/-
# Cutting a source into tokens

Between tokens stand blanks: spaces, tabs, carriage returns, line feeds and
form feeds. At every other place the longest text of any allowed kind is the
next token, and of two kinds with equally long texts the one listed first. A
path is allowed right after the words that announce one.

A place where no kind has a text ends the run with an error. The text of the
error is one character, or as much of an open string as is well formed, or the
mark of a comment that is not closed.

Behind such a word, `Lexer.pathAfterWord` looks for the path directly, without
its pattern: it skips the blanks and then goes from the opening mark to the first
character that may not stand in a path.

Key definitions: `LexError`, `Lexer.longestOf`, `Lexer.pathAfterWord`, `Lexer.scan`,
`lex`.
-/
import OpenScad.Text.Quoted
import OpenScad.Token.Kind

namespace OpenScad

/-- A place where no token can be read. -/
structure LexError where
  text : String
  position : Position
  deriving DecidableEq, Repr

/-- Where a message says that something is. -/
def Position.described (p : Position) : String :=
  " at line " ++ toString p.line ++ ", column " ++ toString p.column

/-- The message of an error. -/
def LexError.message (e : LexError) : String :=
  "Unexpected character " ++ Text.quoted e.text ++ e.position.described

namespace Lexer

/-- Whether a character stands between tokens. -/
def isBlank (c : Char) : Bool :=
  c = ' ' || c = '\t' || c = '\r' || c = '\n' || c = '\x0c'

/-- The kind with the longest text at the front of a source, and the length of that
text. -/
def longestOf : List TokenKind → List Char → Option (TokenKind × Nat)
  | [], _ => none
  | kind :: kinds, source =>
    match kind.pattern.longest source, longestOf kinds source with
    | some n, some (other, m) => if n < m then some (other, m) else some (kind, n)
    | some n, none => some (kind, n)
    | none, later => later

/-- Whether a character ends the text between the marks of a path. -/
def endsPath (c : Char) : Bool :=
  c = '<' || c = '>' || c = ';' || c = '\r' || c = '\n'

/-- How many blanks stand in front of a path and how long the path is, if a text goes on with
one. Behind the opening mark, the first character that ends the text of a path has to be the
closing mark, with something between the two. -/
def pathAfterWord (text : List Char) : Option (Nat × Nat) :=
  let trimmed := text.dropWhile isBlank
  match trimmed with
  | '<' :: inner =>
    (inner.findIdx? endsPath).bind fun close =>
      if close = 0 ∨ inner[close]? ≠ some '>' then none
      else some (text.length - trimmed.length, close + 2)
  | _ => none

/-- How much of a source an error shows. -/
def faultLength (source : List Char) : Nat :=
  (TokenKind.stringFront.longest source).getD 1

/-- The kind and length of the token at the front of a source, or how much of it is at
fault. -/
def tokenAt (pathAllowed : Bool) (source : List Char) : Except Nat (TokenKind × Nat) :=
  if ['/', '*'].isPrefixOf source ∧ (TokenKind.blockComment.pattern.longest source).isNone then
    .error 2
  else
    match longestOf (TokenKind.candidates pathAllowed) source with
    | some found => .ok found
    | none => .error (faultLength source)

/-- The tokens of a source that starts at a position. -/
def scan (pathAllowed : Bool) (start : Position) (source : List Char) :
    Except LexError (List Lexeme) :=
  let position := start.past (source.takeWhile isBlank)
  match h : source.dropWhile isBlank with
  | [] => .ok []
  | c :: rest =>
    match tokenAt pathAllowed (c :: rest) with
    | .error n => .error { text := String.ofList ((c :: rest).take n), position }
    | .ok (kind, n) =>
      let value := c :: rest.take (n - 1)
      have : rest.length - (n - 1) < source.length := by
        have hsub : (source.dropWhile isBlank).Sublist source := List.dropWhile_sublist isBlank
        have hle := hsub.length_le
        rw [h, List.length_cons] at hle
        omega
      match scan kind.announcesPath (position.past value) (rest.drop (n - 1)) with
      | .error e => .error e
      | .ok lexemes =>
        .ok ({ kind, token := .starting position (String.ofList value) } :: lexemes)
termination_by source.length

end Lexer

/-- The tokens of a source. -/
def lex (source : String) : Except LexError (List Lexeme) :=
  Lexer.scan false .origin source.toList

end OpenScad
