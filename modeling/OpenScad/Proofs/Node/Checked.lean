/-
# Nodes right above what they are given

Everything that builds a node checks what the kind of the node demands, and
takes the children of the node from its operands as they are. The children of a
node from a bag are nodes in values of the bag; a rule passes on the nodes that
it is given or puts one new node right above them, in their order. That the tree
is valid all the way down is then a matter of one node at a time
(`Node.isValid_iff`).

Key definitions: `Field.nodes`, `Fields.nodes`, `Data.nodes`, `Node.Checked`,
`Rule.GivesOver`.
Key theorems: `Node.isValid_iff`, `Node.checked_of_ofFields`,
`Node.checked_of_copyWith`, `Rule.givesOver_build`.
-/
import OpenScad.Proofs.Node.Acceptance

namespace OpenScad

/-! ### The nodes in operands -/

namespace Field

mutual

/-- The nodes in a value, in order. -/
def nodes : Field → List Node
  | node value => [value]
  | list items => nodesAll items
  | _ => []

/-- The nodes in several values, in order. -/
def nodesAll : List Field → List Node
  | [] => []
  | item :: items => nodes item ++ nodesAll items

end

theorem nodesAll_map_node (nodes : List Node) : nodesAll (nodes.map .node) = nodes := by
  induction nodes with
  | nil => rfl
  | cons node nodes ih =>
    rw [List.map_cons, nodesAll, ih]
    rfl

theorem nodesAll_map_text (lines : List String) : nodesAll (lines.map .text) = [] := by
  induction lines with
  | nil => rfl
  | cons line lines ih =>
    rw [List.map_cons, nodesAll, ih]
    rfl

end Field

/-- The nodes in a bag, in order. -/
def Fields.nodes (bag : Fields) : List Node := bag.entries.flatMap fun entry => entry.2.nodes

/-- The node that an element is, if it is one. -/
def Element.node? : Element → Option Node
  | token _ => none
  | node n => some n

/-- The nodes in a match-result, in order. -/
def Data.nodes (data : Data) : List Node := data.flatten.filterMap Element.node?

/-! ### Validity node by node -/

namespace Node

/-- The node itself is as its kind demands; nothing is said of the nodes below it. -/
def Checked : Node → Prop
  | assignment name _ _ => name.kind = .identifier
  | usePath file _ | includePath file _ => file.kind = .path
  | blockComment text _ => ∃ ls, text = .lines ls
  | _ => True

/-- A node is valid if and only if it is as its kind demands and its children are valid. -/
theorem isValid_iff {node : Node} :
    node.IsValid ↔ node.Checked ∧ ∀ child ∈ node.children, child.IsValid := by
  constructor
  · intro h
    cases h with
    | blockComment ls => exact ⟨⟨ls, rfl⟩, by simp [children]⟩
    | assignment _ hkind hname hvalue => exact ⟨hkind, by simp [hname, hvalue]⟩
    | block _ hall => exact ⟨trivial, hall⟩
    | binaryOperator _ _ hleft hright => exact ⟨trivial, by simp [hleft, hright]⟩
    | unaryOperator _ _ hvalue => exact ⟨trivial, by simp [hvalue]⟩
    | usePath _ hkind hfile | includePath _ hkind hfile => exact ⟨hkind, by simp [hfile]⟩
    | _ => exact ⟨trivial, by simp [children]⟩
  · rintro ⟨hchecked, hchildren⟩
    cases node with
    | number => exact .number _ _
    | string => exact .string _ _
    | path => exact .path _ _
    | boolean => exact .boolean _ _
    | identifier => exact .identifier _ _
    | undefined => exact .undefined _
    | lineComment => exact .lineComment _ _
    | blockComment =>
      obtain ⟨ls, rfl⟩ := hchecked
      exact .blockComment ls _
    | assignment name value =>
      exact .assignment _ hchecked (hchildren name (by simp)) (hchildren value (by simp))
    | block => exact .block _ hchildren
    | binaryOperator operator left right =>
      exact .binaryOperator _ _ (hchildren left (by simp)) (hchildren right (by simp))
    | unaryOperator operator value => exact .unaryOperator _ _ (hchildren value (by simp))
    | usePath file => exact .usePath _ hchecked (hchildren file (by simp))
    | includePath file => exact .includePath _ hchecked (hchildren file (by simp))

theorem checked_withSpan {node : Node} {span : Span} :
    (node.withSpan span).Checked ↔ node.Checked := by
  cases node <;> exact Iff.rfl

/-- A node that is as its kind demands, right above valid nodes, is valid. -/
theorem Checked.isValid {node : Node} {given : List Node} (h : node.Checked)
    (hchildren : node.children ⊆ given) (hgiven : ∀ n ∈ given, n.IsValid) : node.IsValid :=
  isValid_iff.mpr ⟨h, fun child hchild => hgiven child (hchildren hchild)⟩

theorem isValid_withSpan {node : Node} {span : Span} (h : node.IsValid) :
    (node.withSpan span).IsValid := by
  rw [isValid_iff, checked_withSpan, children_withSpan]
  exact isValid_iff.mp h

theorem declared_withSpan (node : Node) (span : Span) :
    (node.withSpan span).declared = node.declared := by
  cases node <;> rfl

theorem children_of_isTerminal {node : Node} (h : node.kind.isTerminal = true) :
    node.children = [] := by
  cases node <;> first | rfl | cases h

/-- Placing an endpoint gives the node another span. -/
theorem exists_span_of_place {node placed : Node} {endpoint : Endpoint} {position : Position}
    (h : node.place endpoint position = .ok placed) : ∃ span, placed = node.withSpan span := by
  obtain ⟨span, -, hspan⟩ := exists_of_bind_eq_ok h
  cases hspan
  exact ⟨span, rfl⟩

/-! ### Nodes from bags -/

theorem nodes_declared (node : Node) : (Fields.mk node.declared).nodes = node.children := by
  cases node with
  | lineComment text | blockComment text =>
    cases text with
    | single text => rfl
    | lines ls =>
      show (Field.nodesAll (ls.map .text)) ++ [] = []
      rw [Field.nodesAll_map_text, List.append_nil]
  | block statements =>
    show (Field.nodesAll (statements.map .node)) ++ [] = statements
    rw [Field.nodesAll_map_node, List.append_nil]
  | _ => rfl

theorem nodes_fields (node : Node) : node.fields.nodes = node.children := by
  have hendpoint : ∀ endpoint, (Fields.mk (node.endpointField endpoint)).nodes = [] := by
    intro endpoint
    unfold endpointField
    cases node.span.endpoint endpoint <;> rfl
  have hsplit : node.fields.nodes = (Fields.mk node.declared).nodes ++
      (Fields.mk (node.endpointField .start)).nodes ++
        (Fields.mk (node.endpointField .stop)).nodes := by
    simp only [Fields.nodes, fields, List.flatMap_append]
  rw [hsplit, hendpoint, hendpoint, nodes_declared, List.append_nil, List.append_nil]

end Node

namespace Fields

variable {bag : Fields} {name : String} {value : Field}

theorem mem_nodes_of_get? {node : Node} (h : bag.get? name = some value)
    (hnode : node ∈ value.nodes) : node ∈ bag.nodes :=
  List.mem_flatMap.mpr ⟨_, mem_entries_of_get? h, hnode⟩

theorem nodes_subset {other : Fields} (h : bag.entries ⊆ other.entries) :
    bag.nodes ⊆ other.nodes := by
  intro node hnode
  obtain ⟨entry, hentry, hnode⟩ := List.mem_flatMap.mp hnode
  exact List.mem_flatMap.mpr ⟨entry, h hentry, hnode⟩

theorem entries_take_subset (bag : Fields) (name : String) :
    (bag.take name).2.entries ⊆ bag.entries := by
  obtain ⟨entries⟩ := bag
  induction entries with
  | nil => exact List.Subset.refl _
  | cons entry entries ih =>
    rw [take_cons]
    split
    · exact List.subset_cons_self _ _
    · exact List.cons_subset_cons _ ih

theorem mem_replaceIn {entry : String × Field} : ∀ {entries : List (String × Field)},
    entry ∈ replaceIn name value entries → entry = (name, value) ∨ entry ∈ entries
  | [], h => .inl (List.mem_singleton.mp h)
  | first :: rest, h => by
    rw [replaceIn] at h
    split at h
    · obtain h | h := List.mem_cons.mp h
      · exact .inl h
      · exact .inr (List.mem_cons_of_mem _ h)
    · obtain rfl | h := List.mem_cons.mp h
      · exact .inr List.mem_cons_self
      · obtain h | h := mem_replaceIn h
        · exact .inl h
        · exact .inr (List.mem_cons_of_mem _ h)

theorem entries_overlay_subset (bag other : Fields) :
    (bag.overlay other).entries ⊆ bag.entries ++ other.entries := by
  obtain ⟨entries⟩ := other
  induction entries using List.reverseRecOn with
  | nil => exact List.subset_append_left _ _
  | append_singleton entries last ih =>
    intro entry hentry
    rw [overlay_concat] at hentry
    obtain rfl | hentry := mem_replaceIn hentry
    · simp
    · have hbelow := ih hentry
      rw [List.mem_append] at hbelow
      simp only [List.mem_append]
      tauto

/-- The nodes in an overlaid bag are in the bag or in what is put on top. -/
theorem nodes_overlay_subset (bag other : Fields) :
    (bag.overlay other).nodes ⊆ bag.nodes ++ other.nodes := by
  have hall : (bag.overlay other).nodes ⊆ (mk (bag.entries ++ other.entries)).nodes :=
    nodes_subset (bag.entries_overlay_subset other)
  rwa [nodes, nodes, List.flatMap_append] at hall

end Fields

namespace Field

theorem nodes_of_asStatements {value : Field} {nodes : List Node}
    (h : value.asStatements = .ok nodes) : value.nodes = nodes := by
  cases value with
  | node n =>
    cases h
    rfl
  | list items =>
    rw [eq_map_of_mapM eq_node_of_asNode h]
    exact nodesAll_map_node nodes
  | _ => cases h

end Field

namespace Node

variable {kind : NodeKind} {bag : Fields} {node : Node} {read : String → Option Field}

theorem MadeFrom.checked (h : node.MadeFrom read) : node.Checked := by
  cases node with
  | blockComment =>
    obtain ⟨value, -, htext⟩ := h
    exact Field.exists_lines_of_asComment htext
  | assignment => exact h.2.2
  | usePath | includePath => exact h.2
  | _ => trivial

/-- The children of a node are in the values that it is made from. -/
theorem MadeFrom.exists_value (h : node.MadeFrom read) {child : Node}
    (hchild : child ∈ node.children) :
    ∃ name value, read name = some value ∧ child ∈ value.nodes := by
  have hself : ∀ n : Node, n ∈ (Field.node n).nodes := fun n => List.mem_singleton.mpr rfl
  cases node with
  | assignment name value =>
    obtain ⟨hname, hvalue, -⟩ := h
    obtain rfl | rfl : child = name ∨ child = value := by simpa using hchild
    · exact ⟨_, _, hname, hself _⟩
    · exact ⟨_, _, hvalue, hself _⟩
  | block statements =>
    obtain ⟨value, hvalue, hnodes⟩ := h
    exact ⟨_, value, hvalue, Field.nodes_of_asStatements hnodes ▸ hchild⟩
  | binaryOperator operator left right =>
    obtain ⟨-, hleft, hright⟩ := h
    obtain rfl | rfl : child = left ∨ child = right := by simpa using hchild
    · exact ⟨_, _, hleft, hself _⟩
    · exact ⟨_, _, hright, hself _⟩
  | unaryOperator operator value =>
    obtain rfl : child = value := by simpa using hchild
    exact ⟨_, _, h.2, hself _⟩
  | usePath file | includePath file =>
    obtain rfl : child = file := by simpa using hchild
    exact ⟨_, _, h.1, hself _⟩
  | _ => cases hchild

theorem entries_of_takeEndpoint {endpoint : Endpoint} {p : Option Position} {rest : Fields}
    (h : bag.takeEndpoint endpoint = .ok (p, rest)) : rest.entries ⊆ bag.entries := by
  rw [takeEndpoint_eq] at h
  obtain ⟨_, -, hpair⟩ := exists_of_map_eq_ok h
  cases hpair
  exact bag.entries_take_subset _

/-- What a bag makes is made from fields of it, also where the bag has a name twice. -/
theorem exists_madeFrom_of_ofFields (h : ofFields kind bag = .ok node) :
    ∃ rest : Fields, rest.entries ⊆ bag.entries ∧ node.MadeFrom rest.get? ∧ node.kind = kind := by
  obtain ⟨⟨start, behindStart⟩, hstart, h⟩ := exists_of_bind_eq_ok h
  obtain ⟨⟨stop, behindStop⟩, hstop, h⟩ := exists_of_bind_eq_ok h
  obtain ⟨⟨made, left⟩, hmade, h⟩ := exists_of_bind_eq_ok h
  have hrest : behindStop.entries ⊆ bag.entries :=
    List.Subset.trans (entries_of_takeEndpoint hstop) (entries_of_takeEndpoint hstart)
  rw [ofDeclared_eq] at hmade
  obtain ⟨_, hread, hpair⟩ := exists_of_map_eq_ok hmade
  cases hpair
  obtain ⟨hfrom, hkind, -⟩ := madeFrom_of_ofReading hread
  refine ⟨behindStop, hrest, ?_⟩
  dsimp only at h
  split at h
  · cases h
    exact ⟨madeFrom_withSpan.mpr hfrom, (kind_withSpan _ _).trans hkind⟩
  · cases h

/-- A node from a bag is as its kind demands, and is right above nodes of the bag. -/
theorem checked_of_ofFields (h : ofFields kind bag = .ok node) :
    node.Checked ∧ node.kind = kind ∧ node.children ⊆ bag.nodes := by
  obtain ⟨rest, hrest, hfrom, hkind⟩ := exists_madeFrom_of_ofFields h
  refine ⟨hfrom.checked, hkind, fun child hchild => ?_⟩
  obtain ⟨name, value, hget, hvalue⟩ := hfrom.exists_value hchild
  exact Fields.nodes_subset hrest (Fields.mem_nodes_of_get? hget hvalue)

theorem checked_of_copyWith {overrides : Fields} {copy : Node}
    (h : node.copyWith overrides = .ok copy) :
    copy.Checked ∧ copy.children ⊆ node.children ++ overrides.nodes := by
  obtain ⟨hchecked, -, hchildren⟩ := checked_of_ofFields h
  have hoverlay := node.fields.nodes_overlay_subset overrides
  rw [nodes_fields] at hoverlay
  exact ⟨hchecked, List.Subset.trans hchildren hoverlay⟩

/-- A node of a single token is as its kind demands, and has no children. -/
theorem checked_of_ofToken {arith : Arithmetic} {token : Token} {value : Field}
    (h : ofToken arith kind token value = .ok node) :
    node.Checked ∧ node.children = [] := by
  unfold ofToken at h
  split at h
  · rename_i hterminal
    obtain ⟨start, -, h⟩ := exists_of_bind_eq_ok h
    obtain ⟨stop, -, h⟩ := exists_of_bind_eq_ok h
    obtain ⟨bare, hbare, h⟩ := exists_of_bind_eq_ok h
    obtain ⟨started, hstarted, h⟩ := exists_of_bind_eq_ok h
    obtain ⟨span, rfl⟩ := exists_span_of_place hstarted
    obtain ⟨span', rfl⟩ := exists_span_of_place h
    obtain ⟨hchecked, rfl, -⟩ := checked_of_ofFields hbare
    rw [checked_withSpan, checked_withSpan, children_withSpan, children_withSpan]
    exact ⟨hchecked, children_of_isTerminal hterminal⟩
  · cases h

end Node

/-! ### Rules -/

namespace Rule

variable {arith : Arithmetic} {data built : Data}

/-- What a rule gives: the nodes that it is given, or one node right above them. -/
def GivesOver (data built : Data) : Prop :=
  built.nodes = data.nodes ∨
    ∃ node : Node, built = .node node ∧ node.children = data.nodes ∧ node.Checked

theorem filterMap_node?_nodes (nodes : List Node) :
    (nodes.map Element.node).filterMap Element.node? = nodes := by
  rw [List.filterMap_map]
  exact List.filterMap_some

theorem filterMap_node?_withoutSemicolon (es : List Element) :
    (withoutSemicolon es).filterMap Element.node? = es.filterMap Element.node? := by
  unfold withoutSemicolon
  split
  · rename_i last hlast
    split
    · rename_i hsemicolon
      have hsplit := List.dropLast_append_getLast? _ hlast
      have htoken : [last].filterMap Element.node? = [] := by
        cases last with
        | token t => rfl
        | node n => cases hsemicolon
      rw [← hsplit, List.filterMap_append, htoken, List.append_nil, List.dropLast_concat]
    · rfl
  · rfl

theorem nodes_of_withoutSemicolon {es : List Element} (h : withoutSemicolon data.flatten = es) :
    data.nodes = es.filterMap Element.node? := by
  rw [← h, filterMap_node?_withoutSemicolon, Data.nodes]

theorem givesOver_buildTerminal {kind : NodeKind} {value : String → Field}
    (h : buildTerminal arith kind value data = .ok built) : GivesOver data built := by
  obtain ⟨token, node, hdata, hnode, rfl⟩ := token_of_buildTerminal h
  obtain ⟨hchecked, hchildren⟩ := Node.checked_of_ofToken hnode
  have hnone : data.nodes = [] := by
    rw [Data.nodes, hdata]
    rfl
  exact .inr ⟨node, rfl, hchildren.trans hnone.symm, hchecked⟩

theorem givesOver_buildOperation (h : buildOperation data = .ok built) : GivesOver data built := by
  obtain ⟨shape, hdata, h⟩ := shape_of_buildOperation h
  have hnodes : data.nodes = shape.elements.filterMap Element.node? := by rw [Data.nodes, hdata]
  cases shape with
  | noOperand | alreadyBuilt node =>
    subst h
    exact .inl hnodes.symm
  | unary operator operand =>
    obtain ⟨start, stop, -, -, rfl⟩ := h
    exact .inr ⟨_, rfl, hnodes.symm, trivial⟩
  | binary left operator right =>
    obtain ⟨start, stop, -, -, rfl⟩ := h
    exact .inr ⟨_, rfl, hnodes.symm, trivial⟩

theorem givesOver_buildParenthesized (h : buildParenthesized data = .ok built) :
    GivesOver data built := by
  obtain ⟨node, hdata, rfl⟩ := node_of_buildParenthesized h
  -- only tokens are filtered out
  have hnodes : data.nodes =
      (data.flatten.filter fun e => !e.isToken "(" && !e.isToken ")").filterMap
        Element.node? := by
    rw [List.filterMap_filter, Data.nodes]
    refine List.filterMap_congr fun e _ => ?_
    cases e with
    | token t => simp [Element.node?]
    | node n => rfl
  rw [hdata] at hnodes
  exact .inl hnodes.symm

theorem givesOver_buildAssignment (h : buildAssignment data = .ok built) :
    GivesOver data built := by
  obtain ⟨name, equals, value, start, stop, hdata, -, hkind, -, -, rfl⟩ :=
    elements_of_buildAssignment h
  exact .inr ⟨_, rfl, (nodes_of_withoutSemicolon hdata).symm, hkind⟩

theorem givesOver_buildPathStatement {keyword : String} {make : Node → Except NodeError Node}
    (hmake : ∀ file node, make file = .ok node → node.children = [file] ∧ node.Checked)
    (h : buildPathStatement keyword make data = .ok built) : GivesOver data built := by
  obtain ⟨word, file, node, start, stop, hdata, -, hnode, -, -, rfl⟩ :=
    elements_of_buildPathStatement h
  obtain ⟨hchildren, hchecked⟩ := hmake file node hnode
  refine .inr ⟨_, rfl, ?_, Node.checked_withSpan.mpr hchecked⟩
  rw [Node.children_withSpan, hchildren, nodes_of_withoutSemicolon hdata]
  rfl

theorem givesOver_buildBlock (h : buildBlock arith data = .ok built) : GivesOver data built := by
  obtain ⟨opening, closing, nodes, start, stop, hdata, -, -, -, -, rfl⟩ := elements_of_buildBlock h
  have hnodes : data.nodes = nodes := by
    calc data.nodes
        = (nodes.map Element.node ++ [Element.token closing]).filterMap Element.node? := by
          rw [Data.nodes, hdata]
          rfl
      _ = (nodes.map Element.node).filterMap Element.node? := by
          rw [List.filterMap_append]
          exact List.append_nil _
      _ = nodes := filterMap_node?_nodes nodes
  exact .inr ⟨_, rfl, hnodes.symm, trivial⟩

theorem givesOver_buildProgram (h : buildProgram data = .ok built) : GivesOver data built := by
  obtain ⟨nodes, span, hdata, -, rfl⟩ := elements_of_buildProgram h
  have hnodes : data.nodes = nodes := by
    rw [Data.nodes, hdata, filterMap_node?_nodes]
  exact .inr ⟨_, rfl, hnodes.symm, trivial⟩

theorem checked_of_use {file node : Node} (h : file.use = .ok node) :
    node.children = [file] ∧ node.Checked := by
  obtain ⟨hkind, rfl⟩ := kind_of_use h
  exact ⟨rfl, hkind⟩

theorem checked_of_inclusion {file node : Node} (h : file.inclusion = .ok node) :
    node.children = [file] ∧ node.Checked := by
  obtain ⟨hkind, rfl⟩ := kind_of_inclusion h
  exact ⟨rfl, hkind⟩

/-- **A rule passes on the nodes that it is given, or puts one new node right above them,** in
their order. -/
theorem givesOver_build {rule : Rule} (h : rule.build arith data = .ok built) :
    GivesOver data built := by
  cases rule <;> rw [build] at h
  case program => exact givesOver_buildProgram h
  case statement =>
    refine .inl ?_
    rw [Data.nodes, flatten_of_buildStatement h, Data.nodes]
  case block => exact givesOver_buildBlock h
  case assignment => exact givesOver_buildAssignment h
  case usePath => exact givesOver_buildPathStatement (fun _ _ => checked_of_use) h
  case includePath => exact givesOver_buildPathStatement (fun _ _ => checked_of_inclusion) h
  case operation => exact givesOver_buildOperation h
  case parenthesized => exact givesOver_buildParenthesized h
  -- what is left are the rules of single tokens
  all_goals exact givesOver_buildTerminal h

end Rule

end OpenScad
