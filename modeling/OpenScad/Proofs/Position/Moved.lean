/-
# Texts behind other texts

Behind a text that ends with a line break, another text begins at the front of a
line. Each of its positions is then on a later line and at a later offset, but
in the same column as if the text stood alone (`Position.past_moved`). Tokens
and trees move with their positions.

Key definitions: `Position.moved`, `Lexeme.moved`, `Node.moved`.
Key theorems: `Position.past_moved`, `Position.column_past_lineFeed`.
-/
import OpenScad.Data
import OpenScad.Proofs.Position.Past
import OpenScad.Token.Kind

namespace OpenScad

/-! ### Positions -/

namespace Position

/-- The position behind a text that ends at the front of a line. -/
def moved (p joint : Position) : Position :=
  { line := p.line + (joint.line - 1)
    column := p.column
    offset := p.offset + joint.offset }

variable {joint : Position}

theorem moved_origin (hvalid : joint.Valid) (h : joint.column = 1) :
    origin.moved joint = joint := by
  have hline := hvalid.one_le_line
  refine eq_of_coordinates ?_ h.symm (Nat.zero_add joint.offset)
  simp only [moved, origin]
  omega

/-- Going past a text is the same on a later line. -/
theorem past_moved (p joint : Position) (text : List Char) :
    (p.moved joint).past text = (p.past text).moved joint := by
  unfold past
  rcases Text.splitLines text with - | ⟨first, - | ⟨next, more⟩⟩
  · simp only [moved, Position.mk.injEq, true_and]
    omega
  · simp only [moved, Position.mk.injEq, true_and]
    omega
  · simp only [moved, Position.mk.injEq, true_and]
    omega

/-- A line feed ends a line, also as the second half of a line break. -/
theorem column_past_lineFeed (p : Position) (s : List Char) :
    (p.past (s ++ ['\n'])).column = 1 := by
  by_cases hcr : s.getLast? = some '\r'
  · obtain ⟨front, rfl⟩ := List.getLast?_eq_some_iff.mp hcr
    rw [List.append_assoc, past_append p (t := ['\r'] ++ ['\n']) (fun _ => by simp)]
    rfl
  · rw [past_append p fun h => absurd h hcr]
    rfl

end Position

/-! ### Tokens -/

namespace Token

/-- The token at its place behind another text. -/
def moved (joint : Position) (t : Token) : Token :=
  { t with line := t.line + (joint.line - 1), offset := t.offset + joint.offset }

end Token

/-- The token at its place behind another text. -/
def Lexeme.moved (joint : Position) (l : Lexeme) : Lexeme :=
  { l with token := l.token.moved joint }

/-! ### Trees -/

/-- The span at its place behind another text. -/
def Span.moved (joint : Position) (span : Span) : Span :=
  { start := span.start.map (·.moved joint), stop := span.stop.map (·.moved joint) }

namespace Node

mutual

/-- The tree at its place behind another text. -/
def moved (joint : Position) : Node → Node
  | number value span => number value (span.moved joint)
  | string value span => string value (span.moved joint)
  | path value span => path value (span.moved joint)
  | boolean value span => boolean value (span.moved joint)
  | identifier value span => identifier value (span.moved joint)
  | undefined span => undefined (span.moved joint)
  | lineComment value span => lineComment value (span.moved joint)
  | blockComment value span => blockComment value (span.moved joint)
  | assignment name value span =>
    assignment (name.moved joint) (value.moved joint) (span.moved joint)
  | block statements span => block (movedAll joint statements) (span.moved joint)
  | binaryOperator operator left right span =>
    binaryOperator operator (left.moved joint) (right.moved joint) (span.moved joint)
  | unaryOperator operator value span =>
    unaryOperator operator (value.moved joint) (span.moved joint)
  | usePath file span => usePath (file.moved joint) (span.moved joint)
  | includePath file span => includePath (file.moved joint) (span.moved joint)

/-- Trees at their places behind another text. -/
def movedAll (joint : Position) : List Node → List Node
  | [] => []
  | node :: nodes => node.moved joint :: movedAll joint nodes

end

theorem movedAll_eq (joint : Position) (nodes : List Node) :
    movedAll joint nodes = nodes.map (·.moved joint) := by
  induction nodes with
  | nil => rfl
  | cons node nodes ih => rw [movedAll, ih, List.map_cons]

end Node
end OpenScad
