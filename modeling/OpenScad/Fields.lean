/-
# Bags of named fields

A bag holds values under names, each name at most once, in the order in which
the names were first added. A name can be added only when it is absent;
replacing keeps its place; taking removes it.

Key definitions: `Fields`, `Fields.get?`, `Fields.add`, `Fields.replace`,
`Fields.take`, `Fields.overlay`.
-/
import OpenScad.Field

namespace OpenScad

/-- Named values in the order of their names' first addition. -/
structure Fields where
  entries : List (String × Field)
  deriving Repr, Inhabited

namespace Fields

/-- The bag without fields. -/
def empty : Fields := { entries := [] }

/-- The value under a name. -/
def get? (bag : Fields) (name : String) : Option Field := bag.entries.lookup name

/-- Whether a name is present. -/
def contains (bag : Fields) (name : String) : Bool := (bag.get? name).isSome

/-- The names in order. -/
def names (bag : Fields) : List String := bag.entries.map (·.1)

/-- The number of fields. -/
def size (bag : Fields) : Nat := bag.entries.length

/-- Adds a field at the end; its name must be absent. -/
def add (bag : Fields) (name : String) (value : Field) : Except NodeError Fields :=
  if bag.contains name then .error (.alreadySet name)
  else .ok { entries := bag.entries ++ [(name, value)] }

/-- Puts a value at a name's place in a list of entries, or at the end. -/
def replaceIn (name : String) (value : Field) : List (String × Field) → List (String × Field)
  | [] => [(name, value)]
  | entry :: rest =>
    if entry.1 = name then (name, value) :: rest else entry :: replaceIn name value rest

/-- Gives a name a value, in its place if it is present and at the end if not. -/
def replace (bag : Fields) (name : String) (value : Field) : Fields :=
  { entries := replaceIn name value bag.entries }

/-- A list of entries without the first one of a name. -/
def removeFrom (name : String) : List (String × Field) → List (String × Field)
  | [] => []
  | entry :: rest => if entry.1 = name then rest else entry :: removeFrom name rest

/-- The value under a name, and the bag without it. -/
def take (bag : Fields) (name : String) : Option Field × Fields :=
  (bag.get? name, { entries := removeFrom name bag.entries })

/-- The bag with every field of another one put over its own. -/
def overlay (bag other : Fields) : Fields :=
  other.entries.foldl (fun b entry => b.replace entry.1 entry.2) bag

/-! ### Fields that a kind declares -/

/-- Takes a field that a kind needs. -/
def require (bag : Fields) (owner : NodeKind) (name : String) :
    Except NodeError (Field × Fields) :=
  match bag.take name with
  | (some value, rest) => .ok (value, rest)
  | (none, _) => .error (.missingField owner name)

/-- Takes the field of an endpoint, which must hold a position if it is present. -/
def takeEndpoint (bag : Fields) (endpoint : Endpoint) :
    Except NodeError (Option Position × Fields) :=
  match bag.take endpoint.name with
  | (none, rest) => .ok (none, rest)
  | (some (.position p), rest) => .ok (some p, rest)
  | (some other, _) => .error (.notAPosition endpoint other.describe)

end Fields
end OpenScad
