/-
# What rules were given

A rule that gives something was given elements of its shape. There is one law
for each rule, the other way round than the laws that say what a rule makes of
given elements: from the outcome it reads off the elements, the places that were
asked for, and what was built.

Key definitions: `Token.StandsAt`, `Shape.elements`.
Key theorems: `Rule.shape_of_buildOperation`, `Rule.elements_of_buildAssignment`,
`Rule.elements_of_buildPathStatement`, `Rule.elements_of_buildBlock`,
`Rule.elements_of_buildProgram`, `Rule.token_of_buildTerminal`.
-/
import Mathlib.Data.List.Basic
import OpenScad.Rule.Build

namespace OpenScad

/-! ### Nodes whose kind is checked -/

theorem Node.ofKind_eq_ok_iff {owner : NodeKind} {field : String} {wanted : NodeKind}
    {node checked : Node} :
    node.ofKind owner field wanted = .ok checked ↔ node.kind = wanted ∧ checked = node := by
  unfold ofKind
  by_cases hkind : node.kind = wanted
  · simp [hkind, eq_comm]
  · simp [hkind]

/-! ### Endpoints that are asked for -/

/-- The coordinates of the token are those of the position, and valid. -/
structure Token.StandsAt (t : Token) (p : Position) : Prop where
  valid : p.Valid
  line : t.line = p.line
  column : t.column = p.column
  offset : t.offset = p.offset

theorem Token.StandsAt.position {t : Token} {p : Position} (h : t.StandsAt p) :
    t.position = .ok p := by
  rw [Token.position, h.line, h.column, h.offset]
  exact Position.ofCoordinates_self h.valid

theorem Token.StandsAt.endPosition {t : Token} {p : Position} {arith : Arithmetic}
    (h : t.StandsAt p) : t.endPosition arith = p.advance arith t.rawText.toList :=
  endPosition_of_position h.position

theorem Token.standsAt_of_position {t : Token} {p : Position} (h : t.position = .ok p) :
    t.StandsAt p := by
  obtain ⟨hvalid, hline, hcolumn, hoffset⟩ := Position.ofCoordinates_eq_ok h
  exact ⟨hvalid, hline.symm, hcolumn.symm, hoffset.symm⟩

/-- A token with a line and a column stands at a position. -/
theorem Token.exists_standsAt {t : Token} (hline : 1 ≤ t.line) (hcolumn : 1 ≤ t.column) :
    ∃ p, t.StandsAt p :=
  ⟨⟨t.line, t.column, t.offset⟩, ⟨hline, hcolumn⟩, rfl, rfl, rfl⟩

theorem Token.position_of_line {t : Token} (h : t.line = 0) :
    t.position = .error (.badCoordinate .line "0") := by
  rw [Token.position, h]
  rfl

theorem Token.position_of_column {t : Token} (hline : 1 ≤ t.line) (hcolumn : t.column = 0) :
    t.position = .error (.badCoordinate .column "0") := by
  have hleast : Axis.line.least ≤ t.line := hline
  rw [Token.position, Position.ofCoordinates, Position.coordinateOf, if_pos hleast, hcolumn]
  rfl

theorem Node.placed_of_endpoint {node : Node} {p : Position} (endpoint : Endpoint)
    (h : node.span.endpoint endpoint = some p) : node.placed endpoint = .ok p := by
  rw [Node.placed, Span.placed, h]

theorem Node.placed_of_none {node : Node} (endpoint : Endpoint)
    (h : node.span.endpoint endpoint = none) :
    node.placed endpoint = .error (.notPlaced (Span.withoutEndpoint endpoint)) := by
  rw [Node.placed, Span.placed, h]

theorem Node.endpoint_of_placed {node : Node} {endpoint : Endpoint} {p : Position}
    (h : node.placed endpoint = .ok p) : node.span.endpoint endpoint = some p := by
  unfold Node.placed Span.placed at h
  split at h
  · rename_i q hq
    cases h
    exact hq
  · cases h

/-! ### Match-results -/

namespace Data

variable {data item : Data}

theorem eq_node_of_intoNode {node : Node} (h : data.intoNode = .ok node) : data = .node node := by
  cases data with
  | node n => cases h; rfl
  | _ => cases h

theorem eq_token_of_intoToken {token : Token} (h : data.intoToken = .ok token) :
    data = .token token := by
  cases data with
  | token t => cases h; rfl
  | _ => cases h

/-- Passing on an only item keeps the elements. -/
theorem flatten_of_forward (h : data.forward = .ok item) : item.flatten = data.flatten := by
  cases data with
  | sequence items =>
    rcases items with - | ⟨x, - | ⟨y, more⟩⟩
    · cases h
      rfl
    · cases h
      simp
    · cases h
  | _ => cases h; rfl

theorem flatten_ofElements (elements : List Element) :
    (ofElements elements).flatten = elements := by
  rw [ofElements, flatten]
  induction elements with
  | nil => rfl
  | cons e es ih =>
    rw [List.map_cons, flattenAll, ih]
    cases e <;> rfl

end Data

/-! ### Shapes of operations -/

namespace Shape

/-- The elements that have a shape. -/
def elements : Shape → List Element
  | noOperand => []
  | alreadyBuilt node => [.node node]
  | unary operator operand => [.token operator, .node operand]
  | binary left operator right => [.node left, .token operator, .node right]

/-- Elements have at most one shape, and only those of a shape have it. -/
theorem ofElements_eq_ok_iff {es : List Element} {shape : Shape} :
    ofElements es = .ok shape ↔ es = shape.elements := by
  constructor
  · intro h
    unfold ofElements at h
    split at h <;> cases h <;> rfl
  · rintro rfl
    cases shape <;> rfl

end Shape

/-! ### Rules -/

namespace Rule

variable {data built : Data} {es : List Element}

theorem eq_of_onlyNodes : ∀ {es : List Element} {nodes : List Node}, onlyNodes es = .ok nodes →
    es = nodes.map .node
  | [], nodes, h => by
    cases h
    rfl
  | .token t :: es, nodes, h => by cases h
  | .node n :: es, nodes, h => by
    obtain ⟨later, hlater, hnodes⟩ := exists_of_bind_eq_ok h
    cases hnodes
    rw [eq_of_onlyNodes hlater, List.map_cons]

theorem withoutSemicolon_subset (es : List Element) : withoutSemicolon es ⊆ es := by
  unfold withoutSemicolon
  split
  · split
    · exact List.dropLast_subset es
    · exact List.Subset.refl es
  · exact List.Subset.refl es

theorem splitClosing_eq_ok {front : List Element} {closing : Token}
    (h : splitClosing es = .ok (front, closing)) :
    es = front ++ [.token closing] ∧ closing.value = "\x7d" := by
  unfold splitClosing at h
  split at h
  · rename_i t hlast
    split at h
    · rename_i hvalue
      cases h
      exact ⟨(List.dropLast_append_getLast? _ hlast).symm, hvalue⟩
    · cases h
  · cases h
  · cases h

theorem splitOpening_eq_ok {opening : Token} {rest : List Element}
    (h : splitOpening es = .ok (opening, rest)) :
    es = .token opening :: rest ∧ opening.value = "\x7b" := by
  unfold splitOpening at h
  split at h
  · split at h
    · rename_i hvalue
      cases h
      exact ⟨rfl, hvalue⟩
    · cases h
  · cases h

theorem token_of_buildTerminal {arith : Arithmetic} {kind : NodeKind} {value : String → Field}
    (h : buildTerminal arith kind value data = .ok built) :
    ∃ token node, data.flatten = [.token token] ∧
      Node.ofToken arith kind token (value token.value) = .ok node ∧ built = .node node := by
  obtain ⟨token, htoken, h⟩ := exists_of_bind_eq_ok h
  obtain ⟨node, hnode, h⟩ := exists_of_bind_eq_ok h
  obtain ⟨item, hitem, hinto⟩ := exists_of_bind_eq_ok htoken
  cases h
  rw [Data.eq_token_of_intoToken hinto] at hitem
  exact ⟨token, node, (Data.flatten_of_forward hitem).symm, hnode, rfl⟩

/-- An operation spans its operands, or starts at a prefix operator. -/
theorem shape_of_buildOperation (h : buildOperation data = .ok built) :
    ∃ shape : Shape, data.flatten = shape.elements ∧
      match shape with
      | .noOperand => built = .absent
      | .alreadyBuilt node => built = .node node
      | .unary operator operand => ∃ start stop, operator.position = .ok start ∧
          operand.placed .stop = .ok stop ∧
          built = .node (.unaryOperator operator.value operand (.between start stop))
      | .binary left operator right => ∃ start stop, left.placed .start = .ok start ∧
          right.placed .stop = .ok stop ∧
          built = .node (.binaryOperator operator.value left right (.between start stop)) := by
  obtain ⟨shape, hshape, h⟩ := exists_of_bind_eq_ok h
  refine ⟨shape, Shape.ofElements_eq_ok_iff.mp hshape, ?_⟩
  cases shape with
  | noOperand =>
    cases h
    rfl
  | alreadyBuilt node =>
    cases h
    rfl
  | unary operator operand =>
    obtain ⟨start, hstart, h⟩ := exists_of_bind_eq_ok h
    obtain ⟨stop, hstop, h⟩ := exists_of_bind_eq_ok h
    cases h
    exact ⟨start, stop, hstart, hstop, rfl⟩
  | binary left operator right =>
    obtain ⟨start, hstart, h⟩ := exists_of_bind_eq_ok h
    obtain ⟨stop, hstop, h⟩ := exists_of_bind_eq_ok h
    cases h
    exact ⟨start, stop, hstart, hstop, rfl⟩

theorem node_of_buildParenthesized (h : buildParenthesized data = .ok built) :
    ∃ node, data.flatten.filter (fun e => !e.isToken "(" && !e.isToken ")") = [.node node] ∧
      built = .node node := by
  obtain ⟨item, hitem, h⟩ := exists_of_bind_eq_ok h
  obtain ⟨node, hnode, h⟩ := exists_of_bind_eq_ok h
  cases h
  have hflatten := Data.flatten_of_forward hitem
  rw [Data.eq_node_of_intoNode hnode, Data.flatten_ofElements] at hflatten
  exact ⟨node, hflatten.symm, rfl⟩

theorem flatten_of_buildStatement (h : buildStatement data = .ok built) :
    built.flatten = data.flatten := by
  rw [Data.flatten_of_forward h, Data.flatten_ofElements]

theorem kind_of_assign {name value node : Node} (h : Node.assign name value = .ok node) :
    name.kind = .identifier ∧ node = .assignment name value {} := by
  obtain ⟨name', hname, h⟩ := exists_of_bind_eq_ok h
  cases h
  obtain ⟨hkind, rfl⟩ := Node.ofKind_eq_ok_iff.mp hname
  exact ⟨hkind, rfl⟩

/-- An assignment spans from the name to the value. -/
theorem elements_of_buildAssignment (h : buildAssignment data = .ok built) :
    ∃ name equals value start stop,
      withoutSemicolon data.flatten = [.node name, .token equals, .node value] ∧
      equals.value = "=" ∧ name.kind = .identifier ∧ name.placed .start = .ok start ∧
      value.placed .stop = .ok stop ∧
      built = .node (.assignment name value (.between start stop)) := by
  unfold buildAssignment at h
  split at h
  · rename_i name equals value hes
    split at h
    · rename_i hequals
      obtain ⟨start, hstart, h⟩ := exists_of_bind_eq_ok h
      obtain ⟨stop, hstop, h⟩ := exists_of_bind_eq_ok h
      obtain ⟨node, hnode, h⟩ := exists_of_bind_eq_ok h
      cases h
      obtain ⟨hkind, rfl⟩ := kind_of_assign hnode
      exact ⟨name, equals, value, start, stop, hes, hequals, hkind, hstart, hstop, rfl⟩
    · cases h
  · cases h
  · cases h

/-- A statement of a keyword and a path spans both. -/
theorem elements_of_buildPathStatement {keyword : String} {make : Node → Except NodeError Node}
    (h : buildPathStatement keyword make data = .ok built) :
    ∃ word file node start stop, withoutSemicolon data.flatten = [.token word, .node file] ∧
      word.value = keyword ∧ make file = .ok node ∧ word.position = .ok start ∧
      file.placed .stop = .ok stop ∧ built = .node (node.withSpan (.between start stop)) := by
  unfold buildPathStatement at h
  split at h
  · rename_i word file hes
    split at h
    · rename_i hword
      obtain ⟨start, hstart, h⟩ := exists_of_bind_eq_ok h
      obtain ⟨stop, hstop, h⟩ := exists_of_bind_eq_ok h
      obtain ⟨node, hnode, h⟩ := exists_of_bind_eq_ok h
      cases h
      exact ⟨word, file, node, start, stop, hes, hword, hnode, hstart, hstop, rfl⟩
    · cases h
  · cases h
  · cases h

theorem kind_of_use {file node : Node} (h : file.use = .ok node) :
    file.kind = .path ∧ node = .usePath file {} := by
  obtain ⟨file', hfile, h⟩ := exists_of_bind_eq_ok h
  cases h
  obtain ⟨hkind, rfl⟩ := Node.ofKind_eq_ok_iff.mp hfile
  exact ⟨hkind, rfl⟩

theorem kind_of_inclusion {file node : Node} (h : file.inclusion = .ok node) :
    file.kind = .path ∧ node = .includePath file {} := by
  obtain ⟨file', hfile, h⟩ := exists_of_bind_eq_ok h
  cases h
  obtain ⟨hkind, rfl⟩ := Node.ofKind_eq_ok_iff.mp hfile
  exact ⟨hkind, rfl⟩

/-- A block spans from its opening brace to just past its closing one. -/
theorem elements_of_buildBlock {arith : Arithmetic} (h : buildBlock arith data = .ok built) :
    ∃ opening closing nodes start stop,
      data.flatten = .token opening :: (nodes.map .node ++ [.token closing]) ∧
      opening.value = "\x7b" ∧ closing.value = "\x7d" ∧ opening.position = .ok start ∧
      closing.endPosition arith = .ok stop ∧ built = .node (.block nodes (.between start stop)) := by
  obtain ⟨⟨front, closing⟩, hclosing, h⟩ := exists_of_bind_eq_ok h
  obtain ⟨⟨opening, inner⟩, hopening, h⟩ := exists_of_bind_eq_ok h
  obtain ⟨nodes, hnodes, h⟩ := exists_of_bind_eq_ok h
  obtain ⟨start, hstart, h⟩ := exists_of_bind_eq_ok h
  obtain ⟨stop, hstop, h⟩ := exists_of_bind_eq_ok h
  cases h
  obtain ⟨hes, hlast⟩ := splitClosing_eq_ok hclosing
  obtain ⟨rfl, hfirst⟩ := splitOpening_eq_ok hopening
  obtain rfl := eq_of_onlyNodes hnodes
  exact ⟨opening, closing, nodes, start, stop, hes, hfirst, hlast, hstart, hstop, rfl⟩

/-- A program spans from its first statement to its last. -/
theorem elements_of_buildProgram (h : buildProgram data = .ok built) :
    ∃ nodes span, data.flatten = nodes.map .node ∧ spanOf nodes = .ok span ∧
      built = .node (.block nodes span) := by
  obtain ⟨nodes, hnodes, h⟩ := exists_of_bind_eq_ok h
  obtain ⟨span, hspan, h⟩ := exists_of_bind_eq_ok h
  cases h
  exact ⟨nodes, span, eq_of_onlyNodes hnodes, hspan, rfl⟩

end Rule
end OpenScad
