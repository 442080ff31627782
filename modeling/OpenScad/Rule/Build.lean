/-
# Building nodes from matches

Every rule turns the match-result of its parts into a node, or passes on the
one that is already there. Terminal rules cut the marks off their token's text.
The nodes of the other rules span from their first part to their last;
parentheses and semicolons leave no trace.

A match is reduced from the inside out: a rule's parts first, then the rule
itself. The first error ends the reduction. The ends of tokens are sums, so the
arithmetic of the machine runs through all of it.

Key definitions: `Rule.build`, `Match.reduce`.
-/
import OpenScad.Data.Shape
import OpenScad.Node.Terminal
import OpenScad.Rule
import OpenScad.Text.Marks

namespace OpenScad

namespace Rule

/-! ### Terminal rules -/

/-- The only token of a match-result. -/
def singleToken (data : Data) : Except NodeError Token := do
  (← data.forward).intoToken

/-- The node of a terminal kind, whose value comes from the token's own. -/
def buildTerminal (arith : Arithmetic) (kind : NodeKind) (value : String → Field) (data : Data) :
    Except NodeError Data := do
  let token ← singleToken data
  return .node (← Node.ofToken arith kind token (value token.value))

/-! ### Expressions -/

/-- An operation: its operand as it is if there is no operator. -/
def buildOperation (data : Data) : Except NodeError Data := do
  match ← Shape.ofData data with
  | .noOperand => return .absent
  | .alreadyBuilt node => return .node node
  | .unary operator operand =>
    let start ← operator.position
    let stop ← operand.placed .stop
    return .node (.unaryOperator operator.value operand (.between start stop))
  | .binary left operator right =>
    let start ← left.placed .start
    let stop ← right.placed .stop
    return .node (.binaryOperator operator.value left right (.between start stop))

/-- The node between parentheses. -/
def buildParenthesized (data : Data) : Except NodeError Data := do
  let inner := data.flatten.filter fun e => !e.isToken "(" && !e.isToken ")"
  return .node (← (← (Data.ofElements inner).forward).intoNode)

/-! ### Statements -/

/-- The elements of a statement without a semicolon at the end. -/
def withoutSemicolon (elements : List Element) : List Element :=
  match elements.getLast? with
  | some last => if last.isToken ";" then elements.dropLast else elements
  | none => elements

/-- The nodes among which no token may be. -/
def onlyNodes : List Element → Except NodeError (List Node)
  | [] => .ok []
  | .node n :: rest => do return n :: (← onlyNodes rest)
  | .token t :: _ => .error (Element.unexpected "a statement" [.token t])

/-- Any statement. -/
def buildStatement (data : Data) : Except NodeError Data :=
  (Data.ofElements data.flatten).forward

/-- An assignment spans from the name to the value. -/
def buildAssignment (data : Data) : Except NodeError Data := do
  match withoutSemicolon data.flatten with
  | [.node name, .token equals, .node value] =>
    if equals.value = "=" then
      let start ← name.placed .start
      let stop ← value.placed .stop
      return .node ((← Node.assign name value).withSpan (.between start stop))
    else
      throw (Element.unexpected "an identifier, '=', a value"
        [.node name, .token equals, .node value])
  | [a, b, c] => throw (Element.unexpected "an identifier, '=', a value" [a, b, c])
  | elements => throw (Element.unexpected "a fixed number of elements" elements)

/-- A statement of a keyword and a path spans both. -/
def buildPathStatement (keyword : String) (make : Node → Except NodeError Node) (data : Data) :
    Except NodeError Data := do
  match withoutSemicolon data.flatten with
  | [.token word, .node file] =>
    if word.value = keyword then
      let start ← word.position
      let stop ← file.placed .stop
      return .node ((← make file).withSpan (.between start stop))
    else throw (Element.unexpected "a keyword then a path" [.token word, .node file])
  | [a, b] => throw (Element.unexpected "a keyword then a path" [a, b])
  | elements => throw (Element.unexpected "a fixed number of elements" elements)

/-- The elements of a block before its closing brace, and that brace. -/
def splitClosing (elements : List Element) : Except NodeError (List Element × Token) :=
  match elements.getLast? with
  | some (.token t) =>
    if t.value = "\x7d" then .ok (elements.dropLast, t)
    else .error (Element.unexpected "a closing brace" [.token t])
  | some (.node n) => .error (Element.unexpected "a closing brace" [.node n])
  | none => .error (Element.unexpected "a closing brace" [])

/-- The opening brace of a block, and the elements behind it. -/
def splitOpening : List Element → Except NodeError (Token × List Element)
  | .token t :: rest =>
    if t.value = "\x7b" then .ok (t, rest)
    else .error (Element.unexpected "an opening brace" (.token t :: rest))
  | elements => .error (Element.unexpected "an opening brace" elements)

/-- A block spans from its opening brace to just past its closing one. -/
def buildBlock (arith : Arithmetic) (data : Data) : Except NodeError Data := do
  let (elements, closing) ← splitClosing data.flatten
  let (opening, elements) ← splitOpening elements
  let statements ← onlyNodes elements
  let start ← opening.position
  let stop ← closing.endPosition arith
  return .node (.block statements (.between start stop))

/-- The span from the first of several nodes to the last; without nodes, no endpoint. -/
def spanOf (nodes : List Node) : Except NodeError Span :=
  match nodes.head?, nodes.getLast? with
  | some first, some last => do return .between (← first.placed .start) (← last.placed .stop)
  | _, _ => .ok {}

/-- A program is a block without braces. -/
def buildProgram (data : Data) : Except NodeError Data := do
  let statements ← onlyNodes data.flatten
  return .node (.block statements (← spanOf statements))

/-! ### All rules -/

/-- What a rule makes of the match-result of its parts. -/
def build (arith : Arithmetic) : Rule → Data → Except NodeError Data
  | program => buildProgram
  | statement => buildStatement
  | block => buildBlock arith
  | assignment => buildAssignment
  | usePath => buildPathStatement "use" Node.use
  | includePath => buildPathStatement "include" Node.inclusion
  | operation => buildOperation
  | parenthesized => buildParenthesized
  | number => buildTerminal arith .number .text
  | string => buildTerminal arith .string fun v => .text (Text.between ['"'] ['"'] v)
  | path => buildTerminal arith .path fun v => .text (Text.between ['<'] ['>'] v)
  | boolean => buildTerminal arith .boolean .text
  | undefined => buildTerminal arith .undefined fun _ => .null
  | identifier => buildTerminal arith .identifier .text
  | lineComment => buildTerminal arith .lineComment fun v => .text (Text.behind ['/', '/'] v)
  | blockComment =>
    buildTerminal arith .blockComment fun v => .text (Text.between ['/', '*'] ['*', '/'] v)

end Rule

namespace Match

mutual

/-- The match-result of a match. -/
def reduce (arith : Arithmetic) : Match → Except NodeError Data
  | absent => .ok .absent
  | token t => .ok (.token t)
  | group parts => do return .sequence (← reduceAll arith parts)
  | rule r parts => do r.build arith (.sequence (← reduceAll arith parts))

/-- The match-results of several matches, in order. -/
def reduceAll (arith : Arithmetic) : List Match → Except NodeError (List Data)
  | [] => .ok []
  | part :: parts => do
    let data ← reduce arith part
    return data :: (← reduceAll arith parts)

end

end Match
end OpenScad
