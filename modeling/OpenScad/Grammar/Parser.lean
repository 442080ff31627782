/-
# Parsers over token lists

A parser looks at the tokens from an index on. It either recognises some of
them and gives the index and the tokens behind, or it fails. Either way it
tells how far it looked: the greatest index at which a test failed, also in
attempts that were given up for another one. Where no test failed, that is the
index where it began.

Key definitions: `Parser`, `Reply`, `Parser.accept`, `Parser.bind`,
`Parser.orElse`, `Parser.many`.
-/
import OpenScad.Token.Kind

namespace OpenScad

/-- What a parser answers. -/
structure Reply (α : Type) where
  /-- The value, the index behind what was recognised, and the tokens there. -/
  result : Option (α × Nat × List Lexeme)
  /-- The greatest index at which a test failed. -/
  furthest : Nat
  deriving Repr

/-- A parser, given an index and the tokens from there on. -/
abbrev Parser (α : Type) := Nat → List Lexeme → Reply α

namespace Parser

/-- Recognises nothing and succeeds. -/
def pure {α : Type} (a : α) : Parser α := fun i ls => { result := some (a, i, ls), furthest := i }

/-- Fails. -/
def fail {α : Type} : Parser α := fun i _ => { result := none, furthest := i }

/-- Recognises one token to which a function of its kind gives a value. -/
def accept {α : Type} (f : Lexeme → Option α) : Parser α := fun i ls =>
  match ls with
  | [] => { result := none, furthest := i }
  | l :: rest =>
    match f l with
    | some a => { result := some (a, i + 1, rest), furthest := i }
    | none => { result := none, furthest := i }

/-- One parser, then another that depends on its value. -/
def bind {α β : Type} (p : Parser α) (f : α → Parser β) : Parser β := fun i ls =>
  let first := p i ls
  match first.result with
  | none => { result := none, furthest := first.furthest }
  | some (a, j, rest) =>
    let second := f a j rest
    { second with furthest := max first.furthest second.furthest }

/-- A parser with its value changed. -/
def map {α β : Type} (f : α → β) (p : Parser α) : Parser β := fun i ls =>
  let reply := p i ls
  { result := reply.result.map fun (a, rest) => (f a, rest), furthest := reply.furthest }

/-- One parser, or another if it fails. -/
def orElse {α : Type} (p q : Parser α) : Parser α := fun i ls =>
  let first := p i ls
  match first.result with
  | some _ => first
  | none =>
    let second := q i ls
    { second with furthest := max first.furthest second.furthest }

/-- The first parser of a list that does not fail. -/
def choice {α : Type} : List (Parser α) → Parser α
  | [] => fail
  | p :: ps => orElse p (choice ps)

/-- A parser, or nothing. -/
def optional {α : Type} (p : Parser α) : Parser (Option α) := orElse (map some p) (pure none)

/-- A parser as often as it succeeds, and at most once for each token of a list. -/
def manyWithin {α : Type} (p : Parser α) : List Lexeme → Parser (List α)
  | [] => pure []
  | _ :: bound => orElse (bind p fun a => map (a :: ·) (manyWithin p bound)) (pure [])

/-- A parser as often as it succeeds. It must recognise at least one token each time, so
that the tokens themselves bound the repetition. -/
def many {α : Type} (p : Parser α) : Parser (List α) := fun i ls => manyWithin p ls i ls

/-- Succeeds only behind the last token. -/
def atEnd : Parser Unit := fun i ls =>
  match ls with
  | [] => { result := some ((), i, []), furthest := i }
  | _ :: _ => { result := none, furthest := i }

/-- The value of a parser on a list of tokens, or the token that it could not get past;
no token is the end of the list. -/
def run {α : Type} (p : Parser α) (ls : List Lexeme) : Except (Option Lexeme) α :=
  let reply := p 0 ls
  match reply.result with
  | some (a, _, _) => .ok a
  | none => .error ls[reply.furthest]?

end Parser
end OpenScad
