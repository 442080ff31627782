/-
# Nodes of single tokens

A terminal node is built from a value, starts where its token starts, and ends
just past the token's raw text.

Key definitions: `Node.ofToken`.
-/
import OpenScad.Token
import OpenScad.Node.Construct

namespace OpenScad

/-- The node of a terminal kind with a value, placed where its token is. -/
def Node.ofToken (arith : Arithmetic) (kind : NodeKind) (token : Token) (value : Field) :
    Except NodeError Node := do
  if kind.isTerminal then
    let start ← token.position
    let stop ← token.endPosition arith
    let node ← Node.ofFields kind { entries := [("value", value)] }
    (← node.place .start start).place .stop stop
  else throw (.notTerminal kind)

end OpenScad
