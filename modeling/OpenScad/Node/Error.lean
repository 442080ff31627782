/-
# What can be wrong with a node

Every way in which a node, a field or a position is refused, and the message
for it. The parts of an error are the data of its cause; what was found is kept
as the description that the message shows.

Key definitions: `Axis`, `Endpoint`, `NodeError`, `NodeError.message`.
-/
import OpenScad.Node.Kind
import OpenScad.Outcome

namespace OpenScad

/-- A coordinate of a position. -/
inductive Axis where
  | line
  | column
  | offset
  deriving DecidableEq, Repr

/-- The name of a coordinate. -/
def Axis.name : Axis → String
  | .line => "line"
  | .column => "column"
  | .offset => "offset"

/-- The least value of a coordinate: lines and columns count from one. -/
def Axis.least : Axis → Nat
  | .line => 1
  | .column => 1
  | .offset => 0

/-- An end of the text that a node spans. -/
inductive Endpoint where
  | start
  | stop
  deriving DecidableEq, Repr

/-- The name of the field that holds an endpoint. -/
def Endpoint.name : Endpoint → String
  | .start => "start"
  | .stop => "end"

/-- Why a node, a field or a position is refused. -/
inductive NodeError where
  /-- A coordinate is below its least value or not a whole number. -/
  | badCoordinate (axis : Axis) (value : String)
  /-- The field of an endpoint holds something else than a position. -/
  | notAPosition (endpoint : Endpoint) (found : String)
  /-- A field that can be set once is set again. -/
  | alreadySet (name : String)
  /-- An endpoint is asked of something that has none. -/
  | notPlaced (found : String)
  /-- A field holds something that the kind does not accept there. -/
  | badField (kind : NodeKind) (field : String) (expected : String) (found : String)
  /-- A boolean is neither a truth value nor one of its two names. -/
  | notABoolean (found : String)
  /-- No kind is registered under the name. -/
  | unknownKind (name : String)
  /-- A node of the kind cannot be built from one token. -/
  | notTerminal (kind : NodeKind)
  /-- More elements than the one that can be passed on. -/
  | tooMany (count : Nat)
  /-- A field that the kind declares is absent. -/
  | missingField (kind : NodeKind) (field : String)
  /-- A field that the kind does not declare is present. -/
  | unknownField (kind : NodeKind) (field : String)
  /-- A matched production has none of the shapes that its builder knows. -/
  | badShape (expected : String) (found : String)
  /-- A sum of coordinates is no word of the machine, and additions are checked. No caller sees
  this one: the run ends there. -/
  | overflow
  deriving DecidableEq, Repr

/-- The message of an error. -/
def NodeError.message : NodeError → String
  | badCoordinate axis value => "Invalid " ++ axis.name ++ " coordinate: " ++ value
  | notAPosition endpoint found =>
    "Field '" ++ endpoint.name ++ "' expects a position, found " ++ found
  | alreadySet name => "Field '" ++ name ++ "' is already set"
  | notPlaced found => "Expected a placed fragment, found " ++ found
  | badField kind field expected found =>
    "Field '" ++ field ++ "' of " ++ kind.name ++ " expects " ++ expected ++ ", found " ++ found
  | notABoolean found => "Invalid boolean literal: " ++ found
  | unknownKind name => "Unknown node kind '" ++ name ++ "'"
  | notTerminal kind => "'" ++ kind.name ++ "' cannot be built from a terminal token"
  | tooMany count => "Expected at most one element to forward, found " ++ toString count
  | missingField kind field => "Missing field '" ++ field ++ "' for " ++ kind.name
  | unknownField kind field => kind.name ++ " has no field '" ++ field ++ "'"
  | badShape expected found => "Expected " ++ expected ++ ", found " ++ found
  | overflow => "attempt to add with overflow"

end OpenScad
