/-
# Field values

The parts of a node reach it as loosely typed values, and a node's own parts
can be read back as such. Each kind of literal has its own way of making what
it needs out of any value.

A number is read from the front of a text, behind leading white space, and what
follows is ignored. A value without such a front is not a number.

Key definitions: `Field`, `Field.describe`, `Field.toNumber`, `Field.toText`,
`Field.toBoolean`.
-/
import OpenScad.Node
import OpenScad.Number.Front

namespace OpenScad

/-- A value that a field of a node may hold. -/
inductive Field where
  | null
  | boolean (value : Bool)
  | number (value : Binary64)
  | text (value : String)
  | list (items : List Field)
  | node (value : Node)
  | position (value : Position)
  deriving Repr

namespace Field

/-- How a message speaks of a value. -/
def describe : Field → String
  | null => "null"
  | boolean value => "boolean " ++ toString value
  | number value => "number " ++ value.display
  | text value => "text " ++ Text.quoted value
  | list items => "list of " ++ toString items.length ++ " items"
  | node value => value.kind.described
  | position _ => "position"

/-- The number that a value stands for. -/
def toNumber : Field → Binary64
  | number value => value
  | boolean value => .ofInt (if value then 1 else 0)
  | text value => .ofFront value.toList
  | _ => .nan

mutual

/-- The text that a value stands for. -/
def toText : Field → String
  | null => "null"
  | boolean value => toString value
  | number value => value.display
  | text value => value
  | list items => ",".intercalate (toTexts items)
  | node value => value.kind.name
  | position _ => "position"

/-- The texts that values stand for. -/
def toTexts : List Field → List String
  | [] => []
  | item :: items => toText item :: toTexts items

end

/-- The truth value that a value is or names. -/
def toBoolean : Field → Except NodeError Bool
  | boolean value => .ok value
  | text "true" => .ok true
  | text "false" => .ok false
  | other => .error (.notABoolean other.describe)

/-! ### Fields that accept one shape only -/

/-- The node in a field. -/
def asNode (owner : NodeKind) (name : String) : Field → Except NodeError Node
  | node value => .ok value
  | other => .error (.badField owner name "a node" other.describe)

/-- The text in a field. -/
def asText (owner : NodeKind) (name : String) : Field → Except NodeError String
  | text value => .ok value
  | other => .error (.badField owner name "a string" other.describe)

/-- The statements of a block: a list of nodes, or a single node. -/
def asStatements : Field → Except NodeError (List Node)
  | node value => .ok [value]
  | list items => items.mapM (asNode .block "statements")
  | other => .error (.badField .block "statements" "a node or list of nodes" other.describe)

/-- One line of a comment that is given as a list. -/
def asLine (owner : NodeKind) : Field → Except NodeError String
  | text value => .ok value
  | other => .error (.badField owner "value" "a list of strings" other.describe)

/-- The text of a comment: one text, which `cut` makes into lines, or a list of lines. -/
def asComment (owner : NodeKind) (cut : Bool) : Field → Except NodeError CommentText
  | text value => .ok (if cut then .split value else .single value)
  | list items => do return .lines (← items.mapM (asLine owner))
  | other => .error (.badField owner "value" "a string or list of strings" other.describe)

/-! ### Values from parts of nodes -/

/-- A list of nodes as a value. -/
def ofNodes (nodes : List Node) : Field := .list (nodes.map .node)

/-- The text of a comment as a value. -/
def ofComment : CommentText → Field
  | .single value => .text value
  | .lines ls => .list (ls.map .text)

end Field
end OpenScad
