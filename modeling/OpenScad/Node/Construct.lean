/-
# Nodes from fields

A node can be taken apart into a bag of fields and built from one. Building
checks every field that the kind declares, in a fixed order, and refuses any
other; the fields "start" and "end" hold the endpoints and come last. A copy
with overrides is taken apart, overlaid and built again.

Key definitions: `Node.fields`, `Node.ofFields`, `Node.copyWith`.
-/
import OpenScad.Fields

namespace OpenScad
namespace Node

/-! ### Taking apart -/

/-- The fields that the kind declares. -/
def declared : Node → List (String × Field)
  | number value _ => [("value", .number value)]
  | string value _ | path value _ | identifier value _ => [("value", .text value)]
  | boolean value _ => [("value", .boolean value)]
  | undefined _ => [("value", .null)]
  | lineComment value _ | blockComment value _ => [("value", .ofComment value)]
  | assignment name value _ => [("identifier", .node name), ("value", .node value)]
  | block statements _ => [("statements", .ofNodes statements)]
  | binaryOperator operator left right _ =>
    [("operator", .text operator), ("leftValue", .node left), ("rightValue", .node right)]
  | unaryOperator operator value _ => [("operator", .text operator), ("value", .node value)]
  | usePath file _ | includePath file _ => [("path", .node file)]

/-- The field of an endpoint, if it is placed. -/
def endpointField (node : Node) (endpoint : Endpoint) : List (String × Field) :=
  match node.span.endpoint endpoint with
  | some p => [(endpoint.name, .position p)]
  | none => []

/-- The fields of a node: the declared ones, then its endpoints. -/
def fields (node : Node) : Fields :=
  { entries := node.declared ++ node.endpointField .start ++ node.endpointField .stop }

/-! ### Building -/

/-- The node without a span that a bag describes, and the fields left over. -/
def ofDeclared (kind : NodeKind) (bag : Fields) : Except NodeError (Node × Fields) := do
  match kind with
  | .number =>
    let (value, bag) ← bag.require kind "value"
    return (number value.toNumber {}, bag)
  | .string =>
    let (value, bag) ← bag.require kind "value"
    return (string value.toText {}, bag)
  | .path =>
    let (value, bag) ← bag.require kind "value"
    return (path value.toText {}, bag)
  | .identifier =>
    let (value, bag) ← bag.require kind "value"
    return (identifier value.toText {}, bag)
  | .boolean =>
    let (value, bag) ← bag.require kind "value"
    return (boolean (← value.toBoolean) {}, bag)
  | .undefined => return (undefined {}, (bag.take "value").2)
  | .lineComment =>
    let (value, bag) ← bag.require kind "value"
    return (lineComment (← value.asComment kind false) {}, bag)
  | .blockComment =>
    let (value, bag) ← bag.require kind "value"
    return (blockComment (← value.asComment kind true) {}, bag)
  | .assignment =>
    let (name, bag) ← bag.require kind "identifier"
    let name ← name.asNode kind "identifier"
    let (value, bag) ← bag.require kind "value"
    let value ← value.asNode kind "value"
    return (← assign name value, bag)
  | .block =>
    let (statements, bag) ← bag.require kind "statements"
    return (block (← statements.asStatements) {}, bag)
  | .binaryOperator =>
    let (operator, bag) ← bag.require kind "operator"
    let operator ← operator.asText kind "operator"
    let (left, bag) ← bag.require kind "leftValue"
    let left ← left.asNode kind "leftValue"
    let (right, bag) ← bag.require kind "rightValue"
    let right ← right.asNode kind "rightValue"
    return (binaryOperator operator left right {}, bag)
  | .unaryOperator =>
    let (operator, bag) ← bag.require kind "operator"
    let operator ← operator.asText kind "operator"
    let (value, bag) ← bag.require kind "value"
    let value ← value.asNode kind "value"
    return (unaryOperator operator value {}, bag)
  | .usePath =>
    let (file, bag) ← bag.require kind "path"
    return (← use (← file.asNode kind "path"), bag)
  | .includePath =>
    let (file, bag) ← bag.require kind "path"
    return (← inclusion (← file.asNode kind "path"), bag)

/-- The node of a kind that a bag of fields describes. -/
def ofFields (kind : NodeKind) (bag : Fields) : Except NodeError Node := do
  let (start, bag) ← bag.takeEndpoint .start
  let (stop, bag) ← bag.takeEndpoint .stop
  let (node, bag) ← ofDeclared kind bag
  match bag.entries with
  | [] => return node.withSpan { start, stop }
  | (name, _) :: _ => throw (.unknownField kind name)

/-- A copy of the node in which some fields have other values. -/
def copyWith (node : Node) (overrides : Fields) : Except NodeError Node :=
  ofFields node.kind (node.fields.overlay overrides)

end Node
end OpenScad
