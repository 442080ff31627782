/-
# Documents

What a tree is before it is written in a format: nulls, truth values, whole and
other numbers, texts, lists, and records whose members keep their order. Every
node becomes a record that starts with its type, goes on with the fields of its
kind, and ends with the endpoints that are placed.

Key definitions: `Document`, `Node.toDocument`, `Field.toDocument`.
-/
import OpenScad.Field

namespace OpenScad

/-- A value ready to be written in a format. -/
inductive Document where
  | null
  | boolean (value : Bool)
  | integer (value : Int)
  | real (value : Binary64)
  | text (value : String)
  | list (items : List Document)
  | record (members : List (String × Document))
  deriving Repr

namespace Document

/-- The greatest whole number below which every whole number has a form of its own
in binary64. -/
def greatestExact : Nat := Nat.pow 2 53 - 1

/-- A number: as a whole one if it is whole and not too large. -/
def ofNumber (x : Binary64) : Document :=
  match x.toInt? with
  | some n => if n.natAbs ≤ greatestExact then integer n else real x
  | none => real x

/-- A position. -/
def ofPosition (p : Position) : Document :=
  record [("type", text "position"), ("line", integer p.line), ("column", integer p.column),
    ("offset", integer p.offset)]

/-- The text of a comment. -/
def ofComment : CommentText → Document
  | .single value => text value
  | .lines ls => list (ls.map text)

/-- The member for an endpoint, if it is placed. -/
def endpointMember (span : Span) (endpoint : Endpoint) : List (String × Document) :=
  match span.endpoint endpoint with
  | some p => [(endpoint.name, ofPosition p)]
  | none => []

/-- The record of a node with the given parts. -/
def ofParts (kind : NodeKind) (parts : List (String × Document)) (span : Span) : Document :=
  record (("type", text kind.name) ::
    (parts ++ endpointMember span .start ++ endpointMember span .stop))

end Document

namespace Node

mutual

/-- The record of a node. -/
def toDocument : Node → Document
  | number value span => .ofParts .number [("value", .ofNumber value)] span
  | string value span => .ofParts .string [("value", .text value)] span
  | path value span => .ofParts .path [("value", .text value)] span
  | boolean value span => .ofParts .boolean [("value", .boolean value)] span
  | identifier value span => .ofParts .identifier [("value", .text value)] span
  | undefined span => .ofParts .undefined [("value", .null)] span
  | lineComment value span => .ofParts .lineComment [("value", .ofComment value)] span
  | blockComment value span => .ofParts .blockComment [("value", .ofComment value)] span
  | assignment name value span =>
    .ofParts .assignment [("identifier", toDocument name), ("value", toDocument value)] span
  | block statements span => .ofParts .block [("statements", .list (toDocuments statements))] span
  | binaryOperator operator left right span =>
    .ofParts .binaryOperator
      [("operator", .text operator), ("leftValue", toDocument left),
        ("rightValue", toDocument right)] span
  | unaryOperator operator value span =>
    .ofParts .unaryOperator [("operator", .text operator), ("value", toDocument value)] span
  | usePath file span => .ofParts .usePath [("path", toDocument file)] span
  | includePath file span => .ofParts .includePath [("path", toDocument file)] span

/-- The records of nodes. -/
def toDocuments : List Node → List Document
  | [] => []
  | node :: nodes => toDocument node :: toDocuments nodes

end

end Node

namespace Field

mutual

/-- The document of a field value. -/
def toDocument : Field → Document
  | null => .null
  | boolean value => .boolean value
  | number value => .ofNumber value
  | text value => .text value
  | list items => .list (toDocuments items)
  | node value => value.toDocument
  | position value => .ofPosition value

/-- The documents of field values. -/
def toDocuments : List Field → List Document
  | [] => []
  | item :: items => toDocument item :: toDocuments items

end

end Field
end OpenScad
