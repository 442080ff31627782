/-
# Shapes of operations

An operation has one of four shapes, which its elements alone decide: none at
all, a node that is already built, an operator before its operand, or an
operator between two operands.

Key definitions: `Shape`, `Shape.ofElements`, `Shape.ofData`.
-/
import OpenScad.Data

namespace OpenScad

/-- The shape of an operation. -/
inductive Shape where
  | noOperand
  | alreadyBuilt (node : Node)
  | unary (operator : Token) (operand : Node)
  | binary (left : Node) (operator : Token) (right : Node)
  deriving Repr

namespace Shape

/-- The shape that elements have. -/
def ofElements : List Element → Except NodeError Shape
  | [] => .ok noOperand
  | [.node n] => .ok (alreadyBuilt n)
  | [.token t, .node n] => .ok (unary t n)
  | [.node l, .token t, .node r] => .ok (binary l t r)
  | [a] => .error (Element.unexpected "a built node" [a])
  | [a, b] => .error (Element.unexpected "an operator token then an operand" [a, b])
  | [a, b, c] =>
    .error (Element.unexpected "an operand, an operator token, an operand" [a, b, c])
  | elements => .error (Element.unexpected "at most three elements" elements)

/-- The shape of a match-result. -/
def ofData (data : Data) : Except NodeError Shape := ofElements data.flatten

end Shape
end OpenScad
