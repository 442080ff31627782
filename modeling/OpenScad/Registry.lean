/-
# Registries

A registry holds values under names and lists them in the order of the names.
Registering a name again replaces its value.

Key definitions: `Registry`, `Registry.register`, `Registry.get?`,
`Registry.names`, `NodeKind.registry`.
-/
import OpenScad.Node.Construct

namespace OpenScad

/-- Values under names, in the order of the names. -/
structure Registry (α : Type) where
  entries : List (String × α)
  deriving Repr

namespace Registry

variable {α : Type}

/-- The registry without entries. -/
def empty : Registry α := { entries := [] }

/-- Puts a value into a list of entries in the order of the names. -/
def insert (name : String) (value : α) : List (String × α) → List (String × α)
  | [] => [(name, value)]
  | entry :: rest =>
    if name < entry.1 then (name, value) :: entry :: rest
    else if name = entry.1 then (name, value) :: rest
    else entry :: insert name value rest

/-- Gives a name a value. -/
def register (registry : Registry α) (name : String) (value : α) : Registry α :=
  { entries := insert name value registry.entries }

/-- The value under a name. -/
def get? (registry : Registry α) (name : String) : Option α := registry.entries.lookup name

/-- Whether a name is registered. -/
def contains (registry : Registry α) (name : String) : Bool := (registry.get? name).isSome

/-- The names in order. -/
def names (registry : Registry α) : List String := registry.entries.map (·.1)

/-- The values in the order of their names. -/
def values (registry : Registry α) : List α := registry.entries.map (·.2)

/-- The registry of a list of entries, a later one replacing an earlier one. -/
def ofList (entries : List (String × α)) : Registry α :=
  entries.foldl (fun registry entry => registry.register entry.1 entry.2) empty

end Registry

namespace NodeKind

/-- Every kind under its own name. -/
def registry : Registry NodeKind := .ofList (all.map fun kind => (kind.name, kind))

/-- The kind that a registry holds under a name. -/
def resolve (registry : Registry NodeKind) (name : String) : Except NodeError NodeKind :=
  match registry.get? name with
  | some kind => .ok kind
  | none => .error (.unknownKind name)

end NodeKind

/-- The node that fields describe, its kind looked up by name. -/
def Node.construct (registry : Registry NodeKind) (name : String) (bag : Fields) :
    Except NodeError Node := do
  Node.ofFields (← NodeKind.resolve registry name) bag

end OpenScad
