/-
# Flat YAML mappings

A document that is one mapping of scalars to scalars, written with a line for
each entry or between braces. A key or value that is missing is an empty plain
scalar, and so is a document that holds nothing but properties; a document
without content is a mapping without entries. An alias stands for the scalar
that an anchor names.

Not covered: keys and values that are collections, and more than one document.
A text with any of these is refused.

Key definitions: `Yaml.Node`, `Yaml.lineEntries`, `Yaml.braceEntries`,
`Yaml.Names`, `Yaml.readMapping`.
-/
import OpenScad.Yaml.Token

namespace OpenScad
namespace Yaml

/-! ### Nodes -/

/-- The name and the tag that stand before the content of a node. -/
structure Properties where
  anchor : Option (List Char) := none
  tag : Option Tag := none
  deriving Repr

/-- A key or a value. -/
inductive Node where
  | reference (name : List Char)
  | scalar (properties : Properties) (form : ScalarForm) (text : List Char)
  deriving Repr

/-- A key or value that is not there. -/
def Node.missing (properties : Properties) : Node := .scalar properties .plain []

/-- The properties at the front of tokens, at most one of each kind, and the rest. -/
def readProperties : List Token → Properties × List Token
  | .anchor anchor :: .tag tag :: rest => ({ anchor, tag }, rest)
  | .tag tag :: .anchor anchor :: rest => ({ anchor, tag }, rest)
  | .anchor anchor :: rest => ({ anchor }, rest)
  | .tag tag :: rest => ({ tag }, rest)
  | rest => ({}, rest)

theorem readProperties_length (tokens : List Token) :
    (readProperties tokens).2.length ≤ tokens.length := by
  unfold readProperties
  split <;> simp <;> omega

/-- The node at the front of tokens and the rest. It is missing if no content stands
there. -/
def readNode (tokens : List Token) : Node × List Token :=
  match tokens with
  | .reference name :: rest => (.reference name, rest)
  | _ =>
    let (properties, rest) := readProperties tokens
    match rest with
    | .scalar form text :: rest => (.scalar properties form text, rest)
    | rest => (.missing properties, rest)

theorem readNode_length (tokens : List Token) : (readNode tokens).2.length ≤ tokens.length := by
  have h := readProperties_length tokens
  unfold readNode
  split
  · simp
  · dsimp only
    split
    · simp_all
      omega
    · simp_all

/-- The value at the front of tokens and the rest. -/
def readValue : List Token → Node × List Token
  | .value :: rest => readNode rest
  | rest => (.missing {}, rest)

theorem readValue_length (tokens : List Token) : (readValue tokens).2.length ≤ tokens.length := by
  unfold readValue
  split
  · exact Nat.le_succ_of_le (readNode_length _)
  · simp

/-! ### Entries -/

/-- The entries with lines of their own that are left, and the tokens behind their end. -/
def lineEntries (tokens : List Token) : Option (List (Node × Node) × List Token) :=
  match tokens with
  | .entriesEnd :: rest => some ([], rest)
  | .key :: rest => do
    let key := readNode rest
    let value := readValue key.2
    let (entries, rest) ← lineEntries value.2
    return ((key.1, value.1) :: entries, rest)
  | _ => none
termination_by tokens.length
decreasing_by
  have := readNode_length rest
  have := readValue_length (readNode rest).2
  simp only [List.length_cons]
  omega

/-- Whether a token may stand at the front of a node. -/
def Token.startsNode : Token → Bool
  | .reference _ | .anchor _ | .tag _ | .scalar .. => true
  | _ => false

/-- The entry between braces at the front of tokens, which may be a lone key. -/
def braceEntry? (tokens : List Token) : Option ((Node × Node) × List Token) :=
  match tokens with
  | .key :: rest =>
    let key := readNode rest
    let value := readValue key.2
    some ((key.1, value.1), value.2)
  | _ =>
    if tokens.head?.any Token.startsNode then
      let key := readNode tokens
      some ((key.1, .missing {}), key.2)
    else none

/-- The entries between braces that are left, and the tokens behind the closing brace. A
comma may follow the last. The count bounds the entries read. -/
def braceEntries : Nat → List Token → Option (List (Node × Node) × List Token)
  | 0, _ => none
  | _ + 1, .closeBrace :: rest => some ([], rest)
  | n + 1, tokens => do
    let (entry, rest) ← braceEntry? tokens
    match rest with
    | .comma :: rest =>
      let (entries, rest) ← braceEntries n rest
      return (entry :: entries, rest)
    | .closeBrace :: rest => return ([entry], rest)
    | _ => none

/-! ### What anchors name -/

/-- The anchors of a document so far. Each has the number of the names that were known
before it, and so a name that is given once more leaves its number to the next new name
too. -/
structure Names where
  /-- The number of each name. -/
  numbers : List (List Char × Nat) := []
  /-- What has been given each number, the newest first; `none` for a mapping. -/
  given : List (Nat × Option Scalar) := []
  deriving Repr

/-- The anchors after one more, for a scalar or a mapping. -/
def Names.give (names : Names) (anchor : Option (List Char)) (scalar : Option Scalar) : Names :=
  match anchor with
  | none => names
  | some name =>
    let number := names.numbers.length
    { numbers := (name, number) :: names.numbers.filter (·.1 ≠ name)
      given := (number, scalar) :: names.given }

/-- A node whose tag is in full and whose alias is a number. -/
inductive Link where
  | numbered (number : Nat)
  | scalar (content : Scalar)
  deriving Repr

/-- The scalar of a link under the anchors of the whole document. -/
def Link.scalar? (names : Names) : Link → Option Scalar
  | numbered number => (names.given.lookup number).join
  | scalar content => some content

/-- The tag of properties in full. -/
def Properties.tag? (handles : List (List Char × List Char)) (properties : Properties) :
    Option (Option (List Char)) :=
  match properties.tag with
  | none => some none
  | some tag => (tag.resolve? handles).map some

/-- Links a node to what stands before it. -/
def Node.link? (handles : List (List Char × List Char)) (names : Names) :
    Node → Option (Link × Names)
  | reference name => (names.numbers.lookup name).map fun number => (.numbered number, names)
  | scalar properties form text => do
    let content : Scalar := { form, text, tag := ← properties.tag? handles }
    return (.scalar content, names.give properties.anchor content)

/-- Links entries in order. -/
def links? (handles : List (List Char × List Char)) (names : Names) :
    List (Node × Node) → Option (List (Link × Link) × Names)
  | [] => some ([], names)
  | (key, value) :: entries => do
    let (key, names) ← key.link? handles names
    let (value, names) ← value.link? handles names
    let (entries, names) ← links? handles names entries
    return ((key, value) :: entries, names)

/-- The entries of a mapping in order. -/
abbrev Entries := List (Scalar × Scalar)

/-- The entries of linked nodes. -/
def entries? (linked : List (Link × Link) × Names) : Option Entries :=
  linked.1.mapM fun (key, value) => do
    return (← key.scalar? linked.2, ← value.scalar? linked.2)

/-! ### Documents -/

/-- The directives at the front of tokens, and the rest. -/
def splitDirectives : List Token → List Directive × List Token
  | .directive directive :: rest =>
    let (directives, rest) := splitDirectives rest
    (directive :: directives, rest)
  | rest => ([], rest)

/-- The entries that the content of a document has, and the tokens behind it. Without a
mark of its start the content may not be missing altogether. -/
def readContent (isMarked : Bool) (properties : Properties) (tokens : List Token) :
    Option (List (Node × Node) × List Token) :=
  match tokens with
  | .openBrace :: rest => braceEntries (tokens.length + 1) rest
  | .entriesStart :: rest => lineEntries rest
  | rest =>
    if isMarked || properties.anchor.isSome || properties.tag.isSome then some ([], rest)
    else none

/-- The entries of the document that tokens make up. Marks of its end are all that may
follow it. -/
def entriesOf? (tokens : List Token) : Option Entries := do
  if tokens.isEmpty then return []
  let (directives, rest) := splitDirectives tokens
  let isMarked := rest.head? = some .documentStart
  if !isMarked && !directives.isEmpty then none
  else
    let handles ← handles? directives
    let (properties, rest) := readProperties (if isMarked then rest.drop 1 else rest)
    let _ ← properties.tag? handles
    let (nodes, rest) ← readContent isMarked properties rest
    if rest.all (· = .documentEnd) then
      entries? (← links? handles (Names.give {} properties.anchor none) nodes)
    else none

/-- The entries of the mapping that a whole text is. -/
def readMapping (text : List Char) : Option Entries := (tokens? text).bind entriesOf?

end Yaml
end OpenScad
