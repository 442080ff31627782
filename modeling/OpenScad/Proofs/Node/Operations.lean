/-
# Sequences of operations

A program that builds a tree calls one operation after the other, and hands to
each the nodes that it has by then (`Makes`). Whatever the operations and their
operands are, every node that it has is valid all the way down, since an
operation checks what it builds and has only valid nodes to build from.

Apart from a copy with overrides, an operation does not reach into a node: it
passes on the nodes that it is given, or puts one new node right above them, or
places an endpoint where there was none (`Operation.Leaves`). So a node is
changed by nothing else, and no endpoint is placed twice.

Key definitions: `Operation`, `Operation.run`, `Makes`, `Operation.Leaves`.
Key theorems: `Operation.leaves_of_run`, `Operation.isValid_of_run`,
`Makes.isValid`, `makes_valid_nodes`.
-/
import OpenScad.Proofs.Node.Checked
import OpenScad.Registry

namespace OpenScad

/-! ### Operations -/

/-- An operation that gives nodes, with its operands. An endpoint is placed like that of any other
node. -/
inductive Operation where
  | number (value : Binary64)
  | string (value : String)
  | path (value : String)
  | boolean (value : Bool)
  | identifier (value : String)
  | undefined
  | lineComment (text : String)
  | blockComment (text : String)
  | assign (name value : Node)
  | use (file : Node)
  | inclusion (file : Node)
  | block (statements : List Node)
  | binaryOperator (left : Node) (operator : String) (right : Node)
  | unaryOperator (operator : String) (value : Node)
  | ofFields (kind : NodeKind) (bag : Fields)
  | construct (registry : Registry NodeKind) (name : String) (bag : Fields)
  | ofToken (kind : NodeKind) (token : Token) (value : Field)
  | ofNamedToken (name : String) (token : Token) (value : Field)
  | copyWith (node : Node) (overrides : Fields)
  | place (node : Node) (endpoint : Endpoint) (position : Position)
  | placeLike (node : Node) (endpoint : Endpoint) (other : Node)
  | children (node : Node)
  | build (rule : Rule) (data : Data)

namespace Operation

/-- The nodes that the operation is given to build from. -/
def given : Operation → List Node
  | assign name value => [name, value]
  | use file | inclusion file => [file]
  | block statements => statements
  | binaryOperator left _ right => [left, right]
  | unaryOperator _ value => [value]
  | ofFields _ bag | construct _ _ bag => bag.nodes
  | ofToken _ _ value | ofNamedToken _ _ value => value.nodes
  | copyWith node overrides => node :: overrides.nodes
  | place node _ _ | placeLike node _ _ | children node => [node]
  | build _ data => data.nodes
  | _ => []

/-- The nodes that the operation gives. -/
def run (arith : Arithmetic) : Operation → Except NodeError (List Node)
  | number value => .ok [.number value {}]
  | string value => .ok [.string value {}]
  | path value => .ok [.path value {}]
  | boolean value => .ok [.boolean value {}]
  | identifier value => .ok [.identifier value {}]
  | undefined => .ok [.undefined {}]
  | lineComment text => .ok [.lineComment (.single text) {}]
  | blockComment text => .ok [.blockComment (.split text) {}]
  | assign name value => do return [← Node.assign name value]
  | use file => do return [← file.use]
  | inclusion file => do return [← file.inclusion]
  | block statements => .ok [.block statements {}]
  | binaryOperator left operator right => .ok [.binaryOperator operator left right {}]
  | unaryOperator operator value => .ok [.unaryOperator operator value {}]
  | ofFields kind bag => do return [← Node.ofFields kind bag]
  | construct registry name bag => do return [← Node.construct registry name bag]
  | ofToken kind token value => do return [← Node.ofToken arith kind token value]
  | ofNamedToken name token value => do
    let kind ← NodeKind.resolve NodeKind.registry name
    return [← Node.ofToken arith kind token value]
  | copyWith node overrides => do return [← node.copyWith overrides]
  | place node endpoint position => do return [← node.place endpoint position]
  | placeLike node endpoint other => do return [← node.placeLike endpoint other]
  | children node => .ok node.children
  | build rule data => do return (← rule.build arith data).nodes

end Operation

/-- The operations, done one after the other, give the nodes: each has its nodes from those that
the ones before it gave. -/
inductive Makes (arith : Arithmetic) : List Operation → List Node → Prop where
  | nothing : Makes arith [] []
  | next {done : List Operation} {pool results : List Node} {op : Operation}
      (before : Makes arith done pool) (given : op.given ⊆ pool)
      (run : op.run arith = .ok results) :
      Makes arith (done ++ [op]) (pool ++ results)

/-! ### What an operation leaves as it is -/

/-- The node, which had no such endpoint, has it at the position, and differs in nothing else. -/
structure Node.PlacedAs (node : Node) (endpoint : Endpoint) (position : Position)
    (placed : Node) : Prop where
  free : node.span.endpoint endpoint = none
  put : placed.span.endpoint endpoint = some position
  other : ∀ e ≠ endpoint, placed.span.endpoint e = node.span.endpoint e
  kind : placed.kind = node.kind
  declared : placed.declared = node.declared

/-- What the results of an operation, other than a copy, have of the nodes that it was given. -/
def Operation.Leaves : Operation → List Node → Prop
  | copyWith _ _, _ => True
  | place node endpoint position, results =>
    ∃ placed, results = [placed] ∧ node.PlacedAs endpoint position placed
  | placeLike node endpoint other, results =>
    ∃ position placed, other.span.endpoint endpoint = some position ∧ results = [placed] ∧
      node.PlacedAs endpoint position placed
  | children node, results => results = node.children
  | ofFields kind bag, results =>
    ∃ node, results = [node] ∧ node.kind = kind ∧ node.children ⊆ bag.nodes
  | construct registry name bag, results =>
    ∃ node, results = [node] ∧ registry.get? name = some node.kind ∧ node.children ⊆ bag.nodes
  | ofToken _ _ _, results | ofNamedToken _ _ _, results =>
    ∃ node, results = [node] ∧ node.children = []
  | op, results => results = op.given ∨ ∃ node, results = [node] ∧ node.children = op.given

/-! ### One operation -/

namespace Node

theorem placedAs_of_place {node placed : Node} {endpoint : Endpoint} {position : Position}
    (h : node.place endpoint position = .ok placed) : node.PlacedAs endpoint position placed := by
  obtain ⟨span, hplace, hspan⟩ := exists_of_bind_eq_ok h
  cases hspan
  unfold Span.place at hplace
  cases hfree : node.span.endpoint endpoint with
  | some p =>
    rw [hfree] at hplace
    cases endpoint <;> cases hplace
  | none =>
    rw [hfree] at hplace
    refine ⟨hfree, ?_, ?_, kind_withSpan _ _, declared_withSpan _ _⟩
    · rw [span_withSpan]
      cases endpoint <;> cases hplace <;> rfl
    · intro e he
      rw [span_withSpan]
      cases endpoint <;> cases e <;> cases hplace <;> first | rfl | exact absurd rfl he

end Node

namespace Operation

variable {arith : Arithmetic} {op : Operation} {results : List Node}

/-- What an operation gives, when it gives one node. -/
theorem exists_of_run {x : Except NodeError Node}
    (h : (do return [← x] : Except NodeError (List Node)) = .ok results) :
    ∃ node, x = .ok node ∧ results = [node] := by
  obtain ⟨node, hnode, h⟩ := exists_of_bind_eq_ok h
  cases h
  exact ⟨node, hnode, rfl⟩

/-- **An operation does not reach into the nodes that it is given.** -/
theorem leaves_of_run (h : op.run arith = .ok results) : op.Leaves results := by
  cases op with
  | copyWith => trivial
  | number | string | path | boolean | identifier | undefined | lineComment | blockComment |
    block | binaryOperator | unaryOperator =>
    cases h
    exact .inr ⟨_, rfl, rfl⟩
  | assign name value =>
    obtain ⟨node, hnode, rfl⟩ := exists_of_run h
    obtain ⟨-, rfl⟩ := Rule.kind_of_assign hnode
    exact .inr ⟨_, rfl, rfl⟩
  | use file =>
    obtain ⟨node, hnode, rfl⟩ := exists_of_run h
    exact .inr ⟨node, rfl, (Rule.checked_of_use hnode).1⟩
  | inclusion file =>
    obtain ⟨node, hnode, rfl⟩ := exists_of_run h
    exact .inr ⟨node, rfl, (Rule.checked_of_inclusion hnode).1⟩
  | ofFields kind bag =>
    obtain ⟨node, hnode, rfl⟩ := exists_of_run h
    obtain ⟨-, hkind, hchildren⟩ := Node.checked_of_ofFields hnode
    exact ⟨node, rfl, hkind, hchildren⟩
  | construct registry name bag =>
    obtain ⟨node, hnode, rfl⟩ := exists_of_run h
    obtain ⟨kind, hresolve, hnode⟩ := exists_of_bind_eq_ok hnode
    obtain ⟨-, rfl, hchildren⟩ := Node.checked_of_ofFields hnode
    refine ⟨node, rfl, ?_, hchildren⟩
    unfold NodeKind.resolve at hresolve
    split at hresolve
    · cases hresolve
      assumption
    · cases hresolve
  | ofToken kind token value =>
    obtain ⟨node, hnode, rfl⟩ := exists_of_run h
    exact ⟨node, rfl, (Node.checked_of_ofToken hnode).2⟩
  | ofNamedToken name token value =>
    obtain ⟨kind, -, h⟩ := exists_of_bind_eq_ok h
    obtain ⟨node, hnode, rfl⟩ := exists_of_run h
    exact ⟨node, rfl, (Node.checked_of_ofToken hnode).2⟩
  | place node endpoint position =>
    obtain ⟨placed, hplaced, rfl⟩ := exists_of_run h
    exact ⟨placed, rfl, Node.placedAs_of_place hplaced⟩
  | placeLike node endpoint other =>
    obtain ⟨placed, hplaced, rfl⟩ := exists_of_run h
    obtain ⟨position, hposition, hplaced⟩ := exists_of_bind_eq_ok hplaced
    refine ⟨position, placed, ?_, rfl, Node.placedAs_of_place hplaced⟩
    exact Node.endpoint_of_placed hposition
  | children node =>
    cases h
    rfl
  | build rule data =>
    obtain ⟨built, hbuilt, h⟩ := exists_of_bind_eq_ok h
    cases h
    obtain hsame | ⟨node, rfl, hchildren, -⟩ := Rule.givesOver_build hbuilt
    · exact .inl hsame
    · exact .inr ⟨node, rfl, hchildren⟩

/-- **What an operation gives is valid if what it is given is.** -/
theorem isValid_of_run (h : op.run arith = .ok results) (hgiven : ∀ node ∈ op.given, node.IsValid) :
    ∀ node ∈ results, node.IsValid := by
  cases op with
  | number | string | path | boolean | identifier | undefined | lineComment | block |
    binaryOperator | unaryOperator =>
    cases h
    exact List.forall_mem_singleton.mpr (Node.isValid_iff.mpr ⟨trivial, hgiven⟩)
  | blockComment =>
    cases h
    exact List.forall_mem_singleton.mpr (.blockComment _ _)
  | assign name value =>
    obtain ⟨node, hnode, rfl⟩ := exists_of_run h
    obtain ⟨hkind, rfl⟩ := Rule.kind_of_assign hnode
    exact List.forall_mem_singleton.mpr (Node.isValid_iff.mpr ⟨hkind, hgiven⟩)
  | use file =>
    obtain ⟨node, hnode, rfl⟩ := exists_of_run h
    obtain ⟨hchildren, hchecked⟩ := Rule.checked_of_use hnode
    refine List.forall_mem_singleton.mpr (Node.isValid_iff.mpr ⟨hchecked, ?_⟩)
    rw [hchildren]
    exact hgiven
  | inclusion file =>
    obtain ⟨node, hnode, rfl⟩ := exists_of_run h
    obtain ⟨hchildren, hchecked⟩ := Rule.checked_of_inclusion hnode
    refine List.forall_mem_singleton.mpr (Node.isValid_iff.mpr ⟨hchecked, ?_⟩)
    rw [hchildren]
    exact hgiven
  | ofFields kind bag =>
    obtain ⟨node, hnode, rfl⟩ := exists_of_run h
    obtain ⟨hchecked, -, hchildren⟩ := Node.checked_of_ofFields hnode
    exact List.forall_mem_singleton.mpr (hchecked.isValid hchildren hgiven)
  | construct registry name bag =>
    obtain ⟨node, hnode, rfl⟩ := exists_of_run h
    obtain ⟨kind, -, hnode⟩ := exists_of_bind_eq_ok hnode
    obtain ⟨hchecked, -, hchildren⟩ := Node.checked_of_ofFields hnode
    exact List.forall_mem_singleton.mpr (hchecked.isValid hchildren hgiven)
  | ofToken kind token value =>
    obtain ⟨node, hnode, rfl⟩ := exists_of_run h
    obtain ⟨hchecked, hchildren⟩ := Node.checked_of_ofToken hnode
    exact List.forall_mem_singleton.mpr (hchecked.isValid (by simp [hchildren]) hgiven)
  | ofNamedToken name token value =>
    obtain ⟨kind, -, h⟩ := exists_of_bind_eq_ok h
    obtain ⟨node, hnode, rfl⟩ := exists_of_run h
    obtain ⟨hchecked, hchildren⟩ := Node.checked_of_ofToken hnode
    exact List.forall_mem_singleton.mpr (hchecked.isValid (by simp [hchildren]) hgiven)
  | copyWith node overrides =>
    obtain ⟨copy, hcopy, rfl⟩ := exists_of_run h
    obtain ⟨hchecked, hchildren⟩ := Node.checked_of_copyWith hcopy
    have hnode : ∀ child ∈ node.children, child.IsValid :=
      (Node.isValid_iff.mp (hgiven node List.mem_cons_self)).2
    have hoverrides : ∀ n ∈ overrides.nodes, n.IsValid :=
      fun n hn => hgiven n (List.mem_cons_of_mem _ hn)
    have hall : ∀ n ∈ node.children ++ overrides.nodes, n.IsValid :=
      List.forall_mem_append.mpr ⟨hnode, hoverrides⟩
    exact List.forall_mem_singleton.mpr (hchecked.isValid hchildren hall)
  | place node endpoint position =>
    obtain ⟨placed, hplaced, rfl⟩ := exists_of_run h
    obtain ⟨span, rfl⟩ := Node.exists_span_of_place hplaced
    exact List.forall_mem_singleton.mpr (Node.isValid_withSpan (hgiven node List.mem_cons_self))
  | placeLike node endpoint other =>
    obtain ⟨placed, hplaced, rfl⟩ := exists_of_run h
    obtain ⟨position, -, hplaced⟩ := exists_of_bind_eq_ok hplaced
    obtain ⟨span, rfl⟩ := Node.exists_span_of_place hplaced
    exact List.forall_mem_singleton.mpr (Node.isValid_withSpan (hgiven node List.mem_cons_self))
  | children node =>
    cases h
    exact (Node.isValid_iff.mp (hgiven node List.mem_cons_self)).2
  | build rule data =>
    obtain ⟨built, hbuilt, h⟩ := exists_of_bind_eq_ok h
    cases h
    obtain hsame | ⟨node, rfl, hchildren, hchecked⟩ := Rule.givesOver_build hbuilt
    · exact hsame ▸ hgiven
    · refine List.forall_mem_singleton.mpr (Node.isValid_iff.mpr ⟨hchecked, ?_⟩)
      rw [hchildren]
      exact hgiven

end Operation

/-! ### Sequences of operations -/

/-- **Every node that operations make is valid,** whatever they are. -/
theorem Makes.isValid {arith : Arithmetic} {ops : List Operation} {pool : List Node}
    (h : Makes arith ops pool) : ∀ node ∈ pool, node.IsValid := by
  -- the nodes of the operations so far carry the invariant
  induction h with
  | nothing => exact List.forall_mem_nil _
  | next _ hgiven hrun ih =>
    have hresults := Operation.isValid_of_run hrun fun node hnode => ih node (hgiven hnode)
    exact List.forall_mem_append.mpr ⟨ih, hresults⟩

/-- **Validity survives every sequence of operations,** and no operation but a copy reaches into a
node: an endpoint is placed only where there was none, and nothing else of the node differs. This
holds under every arithmetic of the machine. -/
theorem makes_valid_nodes (arith : Arithmetic) :
    (∀ (ops : List Operation) (pool : List Node), Makes arith ops pool →
      ∀ node ∈ pool, node.IsValid) ∧
    ∀ (op : Operation) (results : List Node), op.run arith = .ok results → op.Leaves results :=
  ⟨fun _ _ hmade => hmade.isValid, fun _ _ hrun => Operation.leaves_of_run hrun⟩

/-- An assignment is made, given a start, and copied with another name. -/
theorem makes_valid_nodes_sample :
    let x := Node.identifier "x" {}
    let y := Node.identifier "y" {}
    let placed := Node.assignment x y { start := some .origin }
    let ops : List Operation := [.identifier "x", .identifier "y", .assign x y,
      .place (.assignment x y {}) .start .origin,
      .copyWith placed { entries := [("identifier", .node y)] }]
    let copy := Node.assignment y y { start := some .origin }
    Makes .wrapping ops [x, y, .assignment x y {}, placed, copy] ∧ copy.IsValid ∧
      (Node.assignment x y {}).PlacedAs .start .origin placed := by
  intro x y placed ops copy
  have hx : Makes .wrapping [.identifier "x"] [x] := .next .nothing (List.nil_subset _) rfl
  have hy : Makes .wrapping [.identifier "x", .identifier "y"] [x, y] :=
    .next hx (List.nil_subset _) rfl
  have hassigned : Makes .wrapping [.identifier "x", .identifier "y", .assign x y]
      [x, y, .assignment x y {}] := .next hy (List.Subset.refl _) rfl
  have hplaced : Makes .wrapping [.identifier "x", .identifier "y", .assign x y,
      .place (.assignment x y {}) .start .origin] [x, y, .assignment x y {}, placed] :=
    .next hassigned (by simp [Operation.given]) rfl
  have hcopied : Makes .wrapping ops [x, y, .assignment x y {}, placed, copy] :=
    .next hplaced (by simp [Operation.given, Fields.nodes, Field.nodes]) rfl
  obtain ⟨hvalid, hleaves⟩ := makes_valid_nodes .wrapping
  obtain ⟨node, hnode, hfields⟩ :=
    hleaves (.place (.assignment x y {}) .start .origin) [placed] rfl
  cases hnode
  exact ⟨hcopied, hvalid _ _ hcopied copy (by simp), hfields⟩

end OpenScad
