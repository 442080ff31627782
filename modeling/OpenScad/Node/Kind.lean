/-
# Kinds of nodes

A syntax tree has fourteen kinds of nodes. The first eight stand for a single
token, the others have parts. A kind is named in serialized trees, in errors
and by callers who ask for a node by name.

Key definitions: `NodeKind`, `NodeKind.name`, `NodeKind.ofName?`, `NodeKind.isTerminal`.
-/
namespace OpenScad

/-- The kind of a node. -/
inductive NodeKind where
  | number
  | string
  | path
  | boolean
  | identifier
  | undefined
  | lineComment
  | blockComment
  | assignment
  | block
  | binaryOperator
  | unaryOperator
  | usePath
  | includePath
  deriving DecidableEq, Repr

namespace NodeKind

/-- Every kind, terminal kinds first. -/
def all : List NodeKind :=
  [number, string, path, boolean, identifier, undefined, lineComment, blockComment,
   assignment, block, binaryOperator, unaryOperator, usePath, includePath]

/-- The name of a kind in serialized trees. -/
def name : NodeKind → String
  | number => "number"
  | string => "string"
  | path => "path"
  | boolean => "boolean"
  | identifier => "identifier"
  | undefined => "undefined"
  | lineComment => "line_comment"
  | blockComment => "block_comment"
  | assignment => "assignment"
  | block => "block"
  | binaryOperator => "binary_operator"
  | unaryOperator => "unary_operator"
  | usePath => "use"
  | includePath => "include"

/-- Whether the name starts with a vowel sound, so that its article is "an". -/
def takesAn : NodeKind → Bool
  | identifier | undefined | assignment | includePath => true
  | _ => false

/-- A node of the kind, as a message speaks of it. -/
def described (kind : NodeKind) : String := kind.name ++ " node"

/-- A node of the kind, as a message asks for it. -/
def requested (kind : NodeKind) : String :=
  (if kind.takesAn then "an " else "a ") ++ kind.described

/-- Whether a node of the kind stands for a single token. -/
def isTerminal : NodeKind → Bool
  | number | string | path | boolean | identifier | undefined | lineComment | blockComment => true
  | _ => false

/-- The kind with a name. -/
def ofName? (name : String) : Option NodeKind := all.find? fun kind => kind.name == name

end NodeKind
end OpenScad
