/-
# Kinds of tokens

The kinds of tokens of the language and the pattern of each. A word that is
both a keyword and an identifier is the keyword, because keywords come first in
the list of kinds. A path is a token only where a path may stand.

Key definitions: `TokenKind`, `TokenKind.pattern`, `TokenKind.candidates`, `Lexeme`.
-/
import OpenScad.Pattern
import OpenScad.Token

namespace OpenScad

/-- The kind of a token. -/
inductive TokenKind where
  | useWord
  | includeWord
  | trueWord
  | falseWord
  | undefWord
  | identifier
  | number
  | string
  | path
  | lineComment
  | blockComment
  | orOp
  | andOp
  | equal
  | notEqual
  | lessEqual
  | greaterEqual
  | less
  | greater
  | plus
  | minus
  | star
  | slash
  | percent
  | bang
  | assign
  | semicolon
  | openParen
  | closeParen
  | openBrace
  | closeBrace
  deriving DecidableEq, Repr

/-- A token with its kind. -/
structure Lexeme where
  kind : TokenKind
  token : Token
  deriving DecidableEq, Repr

namespace TokenKind

/-! ### Patterns of several characters -/

/-- Whether a character may start an identifier. -/
def isNameStart (c : Char) : Bool := c.isAlpha || c == '_' || c == '$'

/-- Whether a character may stand inside an identifier. -/
def isNamePart (c : Char) : Bool := c.isAlphanum || c == '_'

/-- A decimal digit. -/
def digit : Pattern := .one Char.isDigit

/-- A character out of a list. -/
@[simp]
def oneOf (cs : List Char) : Pattern := .one cs.contains

/-- A character that is not in a list. -/
@[simp]
def noneOf (cs : List Char) : Pattern := .one fun c => !cs.contains c

/-- The power of ten of a number. -/
def power : Pattern :=
  .sequence (oneOf ['e', 'E']) (.sequence (.optional (oneOf ['+', '-'])) (.some digit))

/-- A number: digits with an optional point and more digits, or a point and digits, and
an optional power of ten. -/
def numberPattern : Pattern :=
  .either
    (.sequence (.some digit)
      (.sequence (.optional (.sequence (oneOf ['.']) (.many digit))) (.optional power)))
    (.sequence (oneOf ['.']) (.sequence (.some digit) (.optional power)))

/-- The front of a string: the quote, then any characters but quotes and backslashes, a
backslash taking any character with it that is not a line feed. -/
def stringFront : Pattern :=
  .sequence (oneOf ['"'])
    (.many (.either (noneOf ['"', '\\']) (.sequence (oneOf ['\\']) (noneOf ['\n']))))

/-- A comment between marks, up to the first closing mark. -/
def blockCommentPattern : Pattern :=
  .sequence (.literal ['/', '*'])
    (.sequence
      (.many (.either (noneOf ['*']) (.sequence (.some (oneOf ['*'])) (noneOf ['*', '/']))))
      (.sequence (.some (oneOf ['*'])) (oneOf ['/'])))

/-- A path in angle brackets, on one line and without semicolons. -/
def pathPattern : Pattern :=
  .sequence (oneOf ['<'])
    (.sequence (.some (noneOf ['<', '>', ';', '\r', '\n'])) (oneOf ['>']))

/-- The pattern of a kind. -/
def pattern : TokenKind → Pattern
  | useWord => .literal ['u', 's', 'e']
  | includeWord => .literal ['i', 'n', 'c', 'l', 'u', 'd', 'e']
  | trueWord => .literal ['t', 'r', 'u', 'e']
  | falseWord => .literal ['f', 'a', 'l', 's', 'e']
  | undefWord => .literal ['u', 'n', 'd', 'e', 'f']
  | identifier => .sequence (.one isNameStart) (.many (.one isNamePart))
  | number => numberPattern
  | string => .sequence stringFront (oneOf ['"'])
  | path => pathPattern
  | lineComment => .sequence (.literal ['/', '/']) (.many (noneOf ['\r', '\n']))
  | blockComment => blockCommentPattern
  | orOp => .literal ['|', '|']
  | andOp => .literal ['&', '&']
  | equal => .literal ['=', '=']
  | notEqual => .literal ['!', '=']
  | lessEqual => .literal ['<', '=']
  | greaterEqual => .literal ['>', '=']
  | less => .literal ['<']
  | greater => .literal ['>']
  | plus => .literal ['+']
  | minus => .literal ['-']
  | star => .literal ['*']
  | slash => .literal ['/']
  | percent => .literal ['%']
  | bang => .literal ['!']
  | assign => .literal ['=']
  | semicolon => .literal [';']
  | openParen => .literal ['(']
  | closeParen => .literal [')']
  | openBrace => .literal ['\x7b']
  | closeBrace => .literal ['\x7d']

/-- The kinds that may stand anywhere, keywords first. -/
def everywhere : List TokenKind :=
  [useWord, includeWord, trueWord, falseWord, undefWord, identifier, number, string,
   lineComment, blockComment, orOp, andOp, equal, notEqual, lessEqual, greaterEqual, less,
   greater, plus, minus, star, slash, percent, bang, assign, semicolon, openParen, closeParen,
   openBrace, closeBrace]

/-- Whether a path may follow. -/
def announcesPath (kind : TokenKind) : Bool := kind = useWord || kind = includeWord

/-- The kinds that may follow, where `pathAllowed` says whether a path may. -/
def candidates (pathAllowed : Bool) : List TokenKind :=
  if pathAllowed then path :: everywhere else everywhere

end TokenKind
end OpenScad
