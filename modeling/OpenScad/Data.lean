/-
# Match-results

What a matched production hands on: a token, a node that is already built,
nothing, or a sequence of these, nested in whatever way choices, options and
repetitions leave behind. Flattening keeps the tokens and nodes in order and
forgets the grouping.

Key definitions: `Data`, `Element`, `Data.flatten`, `Data.forward`,
`Data.intoNode`, `Data.intoToken`.
-/
import OpenScad.Token
import OpenScad.Node

namespace OpenScad

/-- What a matched production hands on. -/
inductive Data where
  | absent
  | token (token : Token)
  | node (node : Node)
  | sequence (items : List Data)
  deriving Repr

/-- A token or a node. -/
inductive Element where
  | token (token : Token)
  | node (node : Node)
  deriving Repr

/-- How a message speaks of a token. -/
def Token.described (token : Token) : String := "token " ++ Text.quoted token.value

namespace Element

/-- How a message speaks of an element. -/
def describe : Element → String
  | token t => t.described
  | node n => n.kind.described

/-- Whether the element is a token with the given value. -/
def isToken (value : String) : Element → Bool
  | token t => t.value == value
  | node _ => false

/-- The element as a match-result. -/
def toData : Element → Data
  | token t => .token t
  | node n => .node n

/-- The error for elements that have not the expected shape. -/
def unexpected (expected : String) (elements : List Element) : NodeError :=
  .badShape expected ("[" ++ ", ".intercalate (elements.map describe) ++ "]")

end Element

namespace Data

/-- How a message speaks of a match-result. -/
def describe : Data → String
  | absent => "nothing"
  | token t => t.described
  | node n => n.kind.described
  | sequence items => "sequence of " ++ toString items.length ++ " items"

/-- The span of a match-result, which only a node has. -/
def span : Data → Except NodeError Span
  | node n => .ok n.span
  | other => .error (.notPlaced other.describe)

/-- The node that a match-result is. -/
def intoNode : Data → Except NodeError Node
  | node n => .ok n
  | other => .error (.badShape "a node" other.describe)

/-- The token that a match-result is. -/
def intoToken : Data → Except NodeError Token
  | token t => .ok t
  | other => .error (.badShape "a token" other.describe)

/-- The only item of a sequence, or nothing if it has none; anything else as it is. -/
def forward : Data → Except NodeError Data
  | sequence [] => .ok absent
  | sequence [item] => .ok item
  | sequence items => .error (.tooMany items.length)
  | other => .ok other

/-- Nothing, whatever was matched. -/
def discard (_ : Data) : Data := absent

mutual

/-- The tokens and nodes of a match-result in order. -/
@[simp]
def flatten : Data → List Element
  | absent => []
  | token t => [.token t]
  | node n => [.node n]
  | sequence items => flattenAll items

/-- The tokens and nodes of several match-results in order. -/
@[simp]
def flattenAll : List Data → List Element
  | [] => []
  | item :: items => flatten item ++ flattenAll items

end

/-- Elements as one sequence. -/
def ofElements (elements : List Element) : Data := sequence (elements.map Element.toData)

end Data
end OpenScad
