/-
# Nodes of the syntax tree

A node has a kind, the parts of its kind, and a span. Nodes are built without a
span; an endpoint is placed afterwards, once. An assignment names an
identifier, a use or an include names a path, and a block comment holds a list
of lines: `Node.IsValid` says that this holds throughout a tree.

Numbers are compared by value, so the two zeros are equal; everything else is
compared part by part.

Key definitions: `Node`, `Node.kind`, `Node.children`, `Node.place`,
`Node.same`, `Node.display`, `Node.IsValid`.
-/
import OpenScad.Number.Shortest
import OpenScad.Text.Quoted
import OpenScad.Span

namespace OpenScad

/-- The text of a comment: as it is, or cut into lines. -/
inductive CommentText where
  | single (text : String)
  | lines (lines : List String)
  deriving DecidableEq, Repr

namespace CommentText

/-- The text cut at its line breaks. -/
def split (text : String) : CommentText := .lines (Text.lines text)

/-- The text as a list of lines, whichever form it has. -/
def toList : CommentText → List String
  | single text => [text]
  | lines ls => ls

end CommentText

/-- A node of the syntax tree. -/
inductive Node where
  | number (value : Binary64) (span : Span)
  | string (value : String) (span : Span)
  | path (value : String) (span : Span)
  | boolean (value : Bool) (span : Span)
  | identifier (value : String) (span : Span)
  | undefined (span : Span)
  | lineComment (value : CommentText) (span : Span)
  | blockComment (value : CommentText) (span : Span)
  | assignment (identifier value : Node) (span : Span)
  | block (statements : List Node) (span : Span)
  | binaryOperator (operator : String) (left right : Node) (span : Span)
  | unaryOperator (operator : String) (value : Node) (span : Span)
  | usePath (path : Node) (span : Span)
  | includePath (path : Node) (span : Span)
  deriving Repr

namespace Node

/-! ### Kind, span and children -/

/-- The kind of a node. -/
def kind : Node → NodeKind
  | number .. => .number
  | string .. => .string
  | path .. => .path
  | boolean .. => .boolean
  | identifier .. => .identifier
  | undefined .. => .undefined
  | lineComment .. => .lineComment
  | blockComment .. => .blockComment
  | assignment .. => .assignment
  | block .. => .block
  | binaryOperator .. => .binaryOperator
  | unaryOperator .. => .unaryOperator
  | usePath .. => .usePath
  | includePath .. => .includePath

/-- The span of a node. -/
def span : Node → Span
  | number _ span | string _ span | path _ span | boolean _ span | identifier _ span
  | undefined span | lineComment _ span | blockComment _ span | assignment _ _ span
  | block _ span | binaryOperator _ _ _ span | unaryOperator _ _ span | usePath _ span
  | includePath _ span => span

/-- The node with another span. -/
def withSpan (span : Span) : Node → Node
  | number value _ => number value span
  | string value _ => string value span
  | path value _ => path value span
  | boolean value _ => boolean value span
  | identifier value _ => identifier value span
  | undefined _ => undefined span
  | lineComment value _ => lineComment value span
  | blockComment value _ => blockComment value span
  | assignment name value _ => assignment name value span
  | block statements _ => block statements span
  | binaryOperator operator left right _ => binaryOperator operator left right span
  | unaryOperator operator value _ => unaryOperator operator value span
  | usePath file _ => usePath file span
  | includePath file _ => includePath file span

/-- The nodes right below a node, in the order of its fields. -/
def children : Node → List Node
  | assignment name value _ => [name, value]
  | block statements _ => statements
  | binaryOperator _ left right _ => [left, right]
  | unaryOperator _ value _ => [value]
  | usePath file _ | includePath file _ => [file]
  | _ => []

section Children

variable (operator : String) (a b : Node) (nodes : List Node) (s : Span)

@[simp] theorem children_assignment : (assignment a b s).children = [a, b] := rfl
@[simp] theorem children_block : (block nodes s).children = nodes := rfl
@[simp] theorem children_binaryOperator : (binaryOperator operator a b s).children = [a, b] := rfl
@[simp] theorem children_unaryOperator : (unaryOperator operator a s).children = [a] := rfl
@[simp] theorem children_usePath : (usePath a s).children = [a] := rfl
@[simp] theorem children_includePath : (includePath a s).children = [a] := rfl

end Children

/-! ### Placing endpoints -/

/-- An endpoint of the node, which must have been placed. -/
def placed (node : Node) (endpoint : Endpoint) : Except NodeError Position :=
  node.span.placed endpoint

/-- Places an endpoint of the node, once. -/
def place (node : Node) (endpoint : Endpoint) (position : Position) : Except NodeError Node := do
  return node.withSpan (← node.span.place endpoint position)

/-- Places an endpoint of the node where another node has its own. -/
def placeLike (node : Node) (endpoint : Endpoint) (other : Node) : Except NodeError Node := do
  node.place endpoint (← other.placed endpoint)

/-! ### Nodes whose parts are checked -/

/-- The node, which the field of a kind accepts only if it has the kind `wanted`. -/
def ofKind (owner : NodeKind) (field : String) (wanted : NodeKind) (node : Node) :
    Except NodeError Node :=
  if node.kind = wanted then .ok node
  else .error (.badField owner field wanted.requested node.kind.described)

/-- An assignment without a span. -/
def assign (name value : Node) : Except NodeError Node := do
  return assignment (← name.ofKind .assignment "identifier" .identifier) value {}

/-- A use of a path without a span. -/
def use (target : Node) : Except NodeError Node := do
  return usePath (← target.ofKind .usePath "path" .path) {}

/-- An inclusion of a path without a span. -/
def inclusion (target : Node) : Except NodeError Node := do
  return includePath (← target.ofKind .includePath "path" .path) {}

/-! ### Parts read back -/

/-- The name that an identifier stands for; of another node, the empty one. -/
def name : Node → String
  | identifier value _ => value
  | _ => ""

/-- The text of a path; of another node, the empty one. -/
def target : Node → String
  | path value _ => value
  | _ => ""

/-! ### Comparing -/

mutual

/-- Whether two nodes are equal, numbers by value. -/
@[simp]
def same : Node → Node → Bool
  | number x s, number y t => x.same y && s == t
  | string x s, string y t => x == y && s == t
  | path x s, path y t => x == y && s == t
  | boolean x s, boolean y t => x == y && s == t
  | identifier x s, identifier y t => x == y && s == t
  | undefined s, undefined t => s == t
  | lineComment x s, lineComment y t => x == y && s == t
  | blockComment x s, blockComment y t => x == y && s == t
  | assignment x v s, assignment y w t => same x y && same v w && s == t
  | block xs s, block ys t => sameAll xs ys && s == t
  | binaryOperator o l r s, binaryOperator p m q t => o == p && same l m && same r q && s == t
  | unaryOperator o v s, unaryOperator p w t => o == p && same v w && s == t
  | usePath x s, usePath y t => same x y && s == t
  | includePath x s, includePath y t => same x y && s == t
  | _, _ => false

/-- Whether two lists of nodes are equal node by node. -/
@[simp]
def sameAll : List Node → List Node → Bool
  | [], [] => true
  | x :: xs, y :: ys => same x y && sameAll xs ys
  | _, _ => false

end

/-! ### Short texts -/

/-- A short text for a node, which leaves out spans and the insides of blocks. -/
def display : Node → String
  | number value _ => "Number(" ++ value.display ++ ")"
  | string value _ => "String(" ++ Text.quoted value ++ ")"
  | path value _ => "Path(<" ++ value ++ ">)"
  | boolean value _ => "Boolean(" ++ toString value ++ ")"
  | identifier value _ => "Identifier(" ++ value ++ ")"
  | undefined _ => "Undefined"
  | lineComment value _ | blockComment value _ =>
    "Comment(" ++ toString value.toList.length ++ " lines)"
  | assignment name value _ => "Assignment(" ++ name.name ++ " = " ++ value.display ++ ")"
  | block statements _ => "Block(" ++ toString statements.length ++ " statements)"
  | binaryOperator operator left right _ =>
    "BinaryOperator(" ++ left.display ++ " " ++ operator ++ " " ++ right.display ++ ")"
  | unaryOperator operator value _ => "UnaryOperator(" ++ operator ++ value.display ++ ")"
  | usePath file _ => "Use(<" ++ file.target ++ ">)"
  | includePath file _ => "Include(<" ++ file.target ++ ">)"

/-! ### Valid trees -/

/-- Every assignment names an identifier, every use and include names a path, and
every block comment holds lines. -/
inductive IsValid : Node → Prop where
  | number (value span) : IsValid (.number value span)
  | string (value span) : IsValid (.string value span)
  | path (value span) : IsValid (.path value span)
  | boolean (value span) : IsValid (.boolean value span)
  | identifier (value span) : IsValid (.identifier value span)
  | undefined (span) : IsValid (.undefined span)
  | lineComment (value span) : IsValid (.lineComment value span)
  | blockComment (lines span) : IsValid (.blockComment (.lines lines) span)
  | assignment {name value : Node} (span) (kind_name : name.kind = .identifier)
      (valid_name : IsValid name) (valid_value : IsValid value) :
      IsValid (.assignment name value span)
  | block {statements : List Node} (span) (valid : ∀ s ∈ statements, IsValid s) :
      IsValid (.block statements span)
  | binaryOperator {left right : Node} (operator span) (valid_left : IsValid left)
      (valid_right : IsValid right) : IsValid (.binaryOperator operator left right span)
  | unaryOperator {value : Node} (operator span) (valid_value : IsValid value) :
      IsValid (.unaryOperator operator value span)
  | usePath {path : Node} (span) (kind_path : path.kind = .path) (valid_path : IsValid path) :
      IsValid (.usePath path span)
  | includePath {path : Node} (span) (kind_path : path.kind = .path)
      (valid_path : IsValid path) : IsValid (.includePath path span)

/-! ### Small laws -/

theorem span_withSpan (node : Node) (span : Span) : (node.withSpan span).span = span := by
  cases node <;> rfl

theorem kind_withSpan (node : Node) (span : Span) : (node.withSpan span).kind = node.kind := by
  cases node <;> rfl

theorem children_withSpan (node : Node) (span : Span) :
    (node.withSpan span).children = node.children := by
  cases node <;> rfl

theorem withSpan_withSpan (node : Node) (s t : Span) :
    (node.withSpan s).withSpan t = node.withSpan t := by
  cases node <;> rfl

end Node
end OpenScad
