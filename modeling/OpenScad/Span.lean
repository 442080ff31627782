/-
# Spans of nodes

A node spans the text from its start to its end. Either endpoint may be absent
until it is placed, and can be placed once.

Key definitions: `Span`, `Span.endpoint`, `Span.place`, `Span.placed`.
-/
import OpenScad.Position

namespace OpenScad

/-- The endpoints of a node that have been placed. -/
structure Span where
  start : Option Position := none
  stop : Option Position := none
  deriving DecidableEq, Repr, Inhabited

namespace Span

/-- A span with both endpoints. -/
def between (start stop : Position) : Span := { start := some start, stop := some stop }

/-- One of the endpoints. -/
def endpoint (span : Span) : Endpoint → Option Position
  | .start => span.start
  | .stop => span.stop

@[simp]
theorem endpoint_start (span : Span) : span.endpoint .start = span.start := rfl

@[simp]
theorem endpoint_stop (span : Span) : span.endpoint .stop = span.stop := rfl

@[simp]
theorem start_between (start stop : Position) : (between start stop).start = some start := rfl

@[simp]
theorem stop_between (start stop : Position) : (between start stop).stop = some stop := rfl

/-- How a message speaks of a span without an endpoint. -/
def withoutEndpoint : Endpoint → String
  | .start => "a fragment without a start"
  | .stop => "a fragment without an end"

/-- An endpoint, which must have been placed. -/
def placed (span : Span) (endpoint : Endpoint) : Except NodeError Position :=
  match span.endpoint endpoint with
  | some position => .ok position
  | none => .error (.notPlaced (withoutEndpoint endpoint))

/-- Puts an endpoint where the span has none. -/
def place (span : Span) (endpoint : Endpoint) (position : Position) : Except NodeError Span :=
  match endpoint, span.endpoint endpoint with
  | _, some _ => .error (.alreadySet endpoint.name)
  | .start, none => .ok { span with start := some position }
  | .stop, none => .ok { span with stop := some position }

end Span
end OpenScad
