/-
# Rules of the grammar and their matches

A match is what the grammar recognises, before any node is built: tokens, groups
without a rule, and productions of a rule with their parts in source order. An
optional part that is not there leaves an absent slot.

Key definitions: `Rule`, `Rule.name`, `Match`, `Match.grouped`, `Match.leaves`.
-/
import OpenScad.Token

namespace OpenScad

/-- A rule of the grammar. -/
inductive Rule where
  | program
  | statement
  | block
  | assignment
  | usePath
  | includePath
  | operation
  | parenthesized
  | number
  | string
  | path
  | boolean
  | undefined
  | identifier
  | lineComment
  | blockComment
  deriving DecidableEq, Repr

namespace Rule

/-- Every rule. -/
def all : List Rule :=
  [program, statement, block, assignment, usePath, includePath, operation, parenthesized, number,
   string, path, boolean, undefined, identifier, lineComment, blockComment]

/-- The name of a rule. -/
def name : Rule → String
  | program => "program"
  | statement => "statement"
  | block => "block"
  | assignment => "assignment"
  | usePath => "use"
  | includePath => "include"
  | operation => "operation"
  | parenthesized => "parenthesized"
  | number => "number"
  | string => "string"
  | path => "path"
  | boolean => "boolean"
  | undefined => "undefined"
  | identifier => "identifier"
  | lineComment => "line_comment"
  | blockComment => "block_comment"

/-- The rule with a name. -/
def ofName? (name : String) : Option Rule := all.find? fun rule => rule.name == name

end Rule

/-- What the grammar recognises. -/
inductive Match where
  | absent
  | token (token : Token)
  | group (parts : List Match)
  | rule (rule : Rule) (parts : List Match)
  deriving Repr

namespace Match

/-- The match as the only part of a group. -/
def grouped (m : Match) : Match := group [m]

/-- An optional match, or the absent slot that it leaves. -/
def ofOption : Option Match → Match
  | some m => m
  | none => absent

mutual

/-- The tokens of a match in source order. -/
@[simp]
def leaves : Match → List Token
  | absent => []
  | token t => [t]
  | group parts => leavesAll parts
  | rule _ parts => leavesAll parts

/-- The tokens of several matches in source order. -/
@[simp]
def leavesAll : List Match → List Token
  | [] => []
  | part :: parts => leaves part ++ leavesAll parts

end

mutual

/-- The number of levels of a match: a token or an absent slot is one level. -/
@[simp]
def depth : Match → Nat
  | absent => 1
  | token _ => 1
  | group parts => depthAll parts + 1
  | rule _ parts => depthAll parts + 1

/-- The number of levels of the deepest of several matches. -/
@[simp]
def depthAll : List Match → Nat
  | [] => 0
  | part :: parts => max (depth part) (depthAll parts)

end

variable (m : Match)

@[simp]
theorem leaves_grouped : m.grouped.leaves = m.leaves := List.append_nil _

@[simp]
theorem depth_grouped : m.grouped.depth = m.depth + 1 := congrArg (· + 1) (Nat.max_zero _)

end Match
end OpenScad
