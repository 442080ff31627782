/-
# Nodes read off bags

What a bag makes is decided by what it holds under the names that the kind
knows, and by the first name that the kind does not know; the order of the
fields does not matter otherwise (`Node.ofFields_eq`). So a node is built from
a reading, which is a value or none for each name, and the names left over are
looked at in the end.

Key definitions: `NodeKind.declaredNames`, `Node.ofReading`, `Node.MadeFrom`.
Key theorems: `Node.ofReading_eq_ok_iff`, `Node.ofFields_eq`, `Node.ofFields_eq_ok_iff`.
-/
import OpenScad.Node.Construct
import OpenScad.Proofs.Node.Bag
import OpenScad.Proofs.Tree.Inversion

namespace OpenScad

/-! ### Names that a kind knows -/

namespace NodeKind

/-- The names of the fields that the kind declares, in order. -/
def declaredNames : NodeKind → List String
  | assignment => ["identifier", "value"]
  | block => ["statements"]
  | binaryOperator => ["operator", "leftValue", "rightValue"]
  | unaryOperator => ["operator", "value"]
  | usePath | includePath => ["path"]
  | _ => ["value"]

/-- The names that a field of a node of the kind may have. -/
def knownNames (kind : NodeKind) : List String :=
  Endpoint.start.name :: Endpoint.stop.name :: kind.declaredNames

theorem name_not_mem_declaredNames (kind : NodeKind) (endpoint : Endpoint) :
    endpoint.name ∉ kind.declaredNames := by
  cases kind <;> cases endpoint <;> decide

end NodeKind

namespace Node

/-! ### Building from readings -/

/-- The value read under a name that a kind needs. -/
def needed (read : String → Option Field) (owner : NodeKind) (name : String) :
    Except NodeError Field :=
  match read name with
  | some value => .ok value
  | none => .error (.missingField owner name)

/-- The endpoint read under its name, which must be a position if there is one. -/
def neededEndpoint (read : String → Option Field) (endpoint : Endpoint) :
    Except NodeError (Option Position) :=
  match read endpoint.name with
  | none => .ok none
  | some (.position p) => .ok (some p)
  | some other => .error (.notAPosition endpoint other.describe)

/-- The node without a span that a reading describes. -/
def ofReading (kind : NodeKind) (read : String → Option Field) : Except NodeError Node := do
  match kind with
  | .number => return number (← needed read kind "value").toNumber {}
  | .string => return string (← needed read kind "value").toText {}
  | .path => return path (← needed read kind "value").toText {}
  | .identifier => return identifier (← needed read kind "value").toText {}
  | .boolean => return boolean (← (← needed read kind "value").toBoolean) {}
  | .undefined => return undefined {}
  | .lineComment => return lineComment (← (← needed read kind "value").asComment kind false) {}
  | .blockComment => return blockComment (← (← needed read kind "value").asComment kind true) {}
  | .assignment =>
    let name ← (← needed read kind "identifier").asNode kind "identifier"
    let value ← (← needed read kind "value").asNode kind "value"
    assign name value
  | .block => return block (← (← needed read kind "statements").asStatements) {}
  | .binaryOperator =>
    let operator ← (← needed read kind "operator").asText kind "operator"
    let left ← (← needed read kind "leftValue").asNode kind "leftValue"
    let right ← (← needed read kind "rightValue").asNode kind "rightValue"
    return binaryOperator operator left right {}
  | .unaryOperator =>
    let operator ← (← needed read kind "operator").asText kind "operator"
    let value ← (← needed read kind "value").asNode kind "value"
    return unaryOperator operator value {}
  | .usePath => use (← (← needed read kind "path").asNode kind "path")
  | .includePath => inclusion (← (← needed read kind "path").asNode kind "path")

/-- Refuses the first of the names that are left over. -/
def refuse (kind : NodeKind) : List String → Except NodeError Unit
  | [] => .ok ()
  | name :: _ => .error (.unknownField kind name)

theorem require_eq (bag : Fields) (owner : NodeKind) (name : String) :
    bag.require owner name = (·, (bag.take name).2) <$> needed bag.get? owner name := by
  unfold Fields.require needed Fields.take
  cases bag.get? name <;> rfl

theorem takeEndpoint_eq (bag : Fields) (endpoint : Endpoint) :
    bag.takeEndpoint endpoint =
      (·, (bag.take endpoint.name).2) <$> neededEndpoint bag.get? endpoint := by
  unfold Fields.takeEndpoint neededEndpoint Fields.take
  cases bag.get? endpoint.name with
  | none => rfl
  | some value => cases value <;> rfl

theorem needed_take {bag : Fields} {owner : NodeKind} {name taken : String} (h : taken ≠ name) :
    needed (bag.take taken).2.get? owner name = needed bag.get? owner name := by
  unfold needed
  rw [Fields.get?_take_of_ne h]

/-- A kind reads the names that it declares, and leaves the others. -/
theorem ofDeclared_eq (kind : NodeKind) (bag : Fields) :
    ofDeclared kind bag =
      (·, bag.without kind.declaredNames) <$> ofReading kind bag.get? := by
  cases kind <;>
    simp [ofDeclared, ofReading, require_eq, needed_take, NodeKind.declaredNames, Fields.without,
      -pure_eq_ok]

variable {kind : NodeKind} {read read' : String → Option Field}

/-- Only the names that the kind declares are read. -/
theorem ofReading_congr (h : ∀ name ∈ kind.declaredNames, read name = read' name) :
    ofReading kind read = ofReading kind read' := by
  have hneeded : ∀ name ∈ kind.declaredNames,
      needed read kind name = needed read' kind name := by
    intro name hname
    rw [needed, needed, h name hname]
  cases kind <;>
    simp only [NodeKind.declaredNames, List.forall_mem_cons, List.not_mem_nil, false_implies,
      implies_true, and_true] at hneeded <;>
    simp only [ofReading, hneeded]

/-! ### What a node is made from -/

theorem needed_eq_ok_iff {owner : NodeKind} {name : String} {value : Field} :
    needed read owner name = .ok value ↔ read name = some value := by
  unfold needed
  cases read name <;> simp

theorem needed_of_some {owner : NodeKind} {name : String} {value : Field}
    (h : read name = some value) : needed read owner name = .ok value := needed_eq_ok_iff.mpr h

/-- The reading has a value for every part of the node, from which the part is made. -/
def MadeFrom (read : String → Option Field) : Node → Prop
  | number x _ => ∃ value, read "value" = some value ∧ value.toNumber = x
  | string x _ | path x _ | identifier x _ =>
    ∃ value, read "value" = some value ∧ value.toText = x
  | boolean x _ => ∃ value, read "value" = some value ∧ value.toBoolean = .ok x
  | undefined _ => True
  | lineComment text _ =>
    ∃ value, read "value" = some value ∧ value.asComment .lineComment false = .ok text
  | blockComment text _ =>
    ∃ value, read "value" = some value ∧ value.asComment .blockComment true = .ok text
  | assignment name value _ => read "identifier" = some (.node name) ∧
    read "value" = some (.node value) ∧ name.kind = .identifier
  | block statements _ =>
    ∃ value, read "statements" = some value ∧ value.asStatements = .ok statements
  | binaryOperator operator left right _ => read "operator" = some (.text operator) ∧
    read "leftValue" = some (.node left) ∧ read "rightValue" = some (.node right)
  | unaryOperator operator value _ => read "operator" = some (.text operator) ∧
    read "value" = some (.node value)
  | usePath file _ | includePath file _ => read "path" = some (.node file) ∧ file.kind = .path

theorem given_of_asNode {owner owner' : NodeKind} {name name' : String} {value : Field}
    {node : Node} (h : needed read owner name = .ok value)
    (hnode : value.asNode owner' name' = .ok node) : read name = some (.node node) := by
  rw [needed_eq_ok_iff.mp h]
  cases value with
  | node value =>
    cases hnode
    rfl
  | _ => cases hnode

theorem given_of_asText {owner owner' : NodeKind} {name name' : String} {value : Field}
    {text : String} (h : needed read owner name = .ok value)
    (htext : value.asText owner' name' = .ok text) : read name = some (.text text) := by
  rw [needed_eq_ok_iff.mp h]
  cases value with
  | text value =>
    cases htext
    rfl
  | _ => cases htext

/-- A node that is built is made from what was read. -/
theorem madeFrom_of_ofReading {node : Node} (h : ofReading kind read = .ok node) :
    node.MadeFrom read ∧ node.kind = kind ∧ node.span = {} := by
  cases kind
  case undefined =>
    cases h
    exact ⟨trivial, rfl, rfl⟩
  case number | string | path | identifier =>
    obtain ⟨value, hvalue, h⟩ := exists_of_bind_eq_ok h
    cases h
    exact ⟨⟨value, needed_eq_ok_iff.mp hvalue, rfl⟩, rfl, rfl⟩
  case boolean | lineComment | blockComment | block =>
    obtain ⟨value, hvalue, h⟩ := exists_of_bind_eq_ok h
    obtain ⟨made, hmade, h⟩ := exists_of_bind_eq_ok h
    cases h
    exact ⟨⟨value, needed_eq_ok_iff.mp hvalue, hmade⟩, rfl, rfl⟩
  case assignment =>
    obtain ⟨_, hname, h⟩ := exists_of_bind_eq_ok h
    obtain ⟨name, hname', h⟩ := exists_of_bind_eq_ok h
    obtain ⟨_, hvalue, h⟩ := exists_of_bind_eq_ok h
    obtain ⟨value, hvalue', h⟩ := exists_of_bind_eq_ok h
    obtain ⟨hkind, rfl⟩ := Rule.kind_of_assign h
    exact ⟨⟨given_of_asNode hname hname', given_of_asNode hvalue hvalue', hkind⟩, rfl, rfl⟩
  case binaryOperator =>
    obtain ⟨_, hoperator, h⟩ := exists_of_bind_eq_ok h
    obtain ⟨operator, hoperator', h⟩ := exists_of_bind_eq_ok h
    obtain ⟨_, hleft, h⟩ := exists_of_bind_eq_ok h
    obtain ⟨left, hleft', h⟩ := exists_of_bind_eq_ok h
    obtain ⟨_, hright, h⟩ := exists_of_bind_eq_ok h
    obtain ⟨right, hright', h⟩ := exists_of_bind_eq_ok h
    cases h
    exact ⟨⟨given_of_asText hoperator hoperator', given_of_asNode hleft hleft',
      given_of_asNode hright hright'⟩, rfl, rfl⟩
  case unaryOperator =>
    obtain ⟨_, hoperator, h⟩ := exists_of_bind_eq_ok h
    obtain ⟨operator, hoperator', h⟩ := exists_of_bind_eq_ok h
    obtain ⟨_, hvalue, h⟩ := exists_of_bind_eq_ok h
    obtain ⟨value, hvalue', h⟩ := exists_of_bind_eq_ok h
    cases h
    exact ⟨⟨given_of_asText hoperator hoperator', given_of_asNode hvalue hvalue'⟩, rfl, rfl⟩
  case usePath =>
    obtain ⟨_, hfile, h⟩ := exists_of_bind_eq_ok h
    obtain ⟨file, hfile', h⟩ := exists_of_bind_eq_ok h
    obtain ⟨hkind, rfl⟩ := Rule.kind_of_use h
    exact ⟨⟨given_of_asNode hfile hfile', hkind⟩, rfl, rfl⟩
  case includePath =>
    obtain ⟨_, hfile, h⟩ := exists_of_bind_eq_ok h
    obtain ⟨file, hfile', h⟩ := exists_of_bind_eq_ok h
    obtain ⟨hkind, rfl⟩ := Rule.kind_of_inclusion h
    exact ⟨⟨given_of_asNode hfile hfile', hkind⟩, rfl, rfl⟩

/-- A node is built from what it is made from. -/
theorem MadeFrom.ofReading {node : Node} (h : node.MadeFrom read) :
    ofReading node.kind read = .ok (node.withSpan {}) := by
  cases node with
  | undefined => rfl
  | number | string | path | identifier =>
    obtain ⟨value, hvalue, rfl⟩ := h
    simp only [kind, Node.ofReading, needed_of_some hvalue, ok_bind]
    rfl
  | boolean | lineComment | blockComment | block =>
    obtain ⟨value, hvalue, hmade⟩ := h
    simp only [kind, Node.ofReading, needed_of_some hvalue, ok_bind, hmade]
    rfl
  | assignment name value =>
    obtain ⟨hname, hvalue, hkind⟩ := h
    have hchecked : name.ofKind .assignment "identifier" .identifier = .ok name :=
      ofKind_eq_ok_iff.mpr ⟨hkind, rfl⟩
    change Node.ofReading .assignment read = _
    simp only [Node.ofReading, needed_of_some hname, needed_of_some hvalue, ok_bind,
      Field.asNode, assign, hchecked]
    rfl
  | binaryOperator =>
    obtain ⟨hoperator, hleft, hright⟩ := h
    simp only [kind, Node.ofReading, needed_of_some hoperator, needed_of_some hleft,
      needed_of_some hright, ok_bind, Field.asNode, Field.asText]
    rfl
  | unaryOperator =>
    obtain ⟨hoperator, hvalue⟩ := h
    simp only [kind, Node.ofReading, needed_of_some hoperator, needed_of_some hvalue, ok_bind,
      Field.asNode, Field.asText]
    rfl
  | usePath file =>
    obtain ⟨hfile, hkind⟩ := h
    have hchecked : file.ofKind .usePath "path" .path = .ok file :=
      ofKind_eq_ok_iff.mpr ⟨hkind, rfl⟩
    change Node.ofReading .usePath read = _
    simp only [Node.ofReading, needed_of_some hfile, ok_bind, Field.asNode, use, hchecked]
    rfl
  | includePath file =>
    obtain ⟨hfile, hkind⟩ := h
    have hchecked : file.ofKind .includePath "path" .path = .ok file :=
      ofKind_eq_ok_iff.mpr ⟨hkind, rfl⟩
    change Node.ofReading .includePath read = _
    simp only [Node.ofReading, needed_of_some hfile, ok_bind, Field.asNode, inclusion, hchecked]
    rfl

theorem withSpan_span (node : Node) : node.withSpan node.span = node := by
  cases node <;> rfl

/-- **A reading is accepted if and only if it has what some node of the kind is made from.** -/
theorem ofReading_eq_ok_iff {node : Node} :
    ofReading kind read = .ok node ↔ node.MadeFrom read ∧ node.kind = kind ∧ node.span = {} := by
  constructor
  · exact madeFrom_of_ofReading
  · rintro ⟨hmade, rfl, hspan⟩
    rw [hmade.ofReading, ← hspan, withSpan_span]

/-! ### Bags -/

/-- **A node is built from a reading of the bag.** First come the endpoints, then what the kind
declares, and in the end the names that the kind does not know. -/
theorem ofFields_eq (kind : NodeKind) {bag : Fields} (h : bag.Distinct) :
    ofFields kind bag = do
      let start ← neededEndpoint bag.get? .start
      let stop ← neededEndpoint bag.get? .stop
      let node ← ofReading kind bag.get?
      refuse kind (bag.outside kind.knownNames)
      return node.withSpan { start, stop } := by
  have hstop : neededEndpoint (bag.take Endpoint.start.name).2.get? .stop =
      neededEndpoint bag.get? .stop := by
    unfold neededEndpoint
    rw [Fields.get?_take_of_ne (by decide)]
  have hread : ofReading kind
      ((bag.take Endpoint.start.name).2.take Endpoint.stop.name).2.get? =
      ofReading kind bag.get? := by
    refine ofReading_congr fun name hname => ?_
    have hne : ∀ endpoint : Endpoint, endpoint.name ≠ name :=
      fun endpoint heq => kind.name_not_mem_declaredNames endpoint (heq ▸ hname)
    rw [Fields.get?_take_of_ne (hne .stop), Fields.get?_take_of_ne (hne .start)]
  have hrest : ((((bag.take Endpoint.start.name).2.take Endpoint.stop.name).2.without
      kind.declaredNames).names) = bag.outside kind.knownNames :=
    Fields.names_without kind.knownNames h
  rw [← hrest]
  simp only [ofFields, takeEndpoint_eq, ofDeclared_eq, bind_map_left, hstop, hread, Fields.names]
  refine congrArg _ (funext fun start => congrArg _ (funext fun stop => congrArg _ (funext
    fun node => ?_)))
  split
  · rename_i hnone
    rw [hnone]
    rfl
  · rename_i hsome
    rw [hsome]
    rfl

theorem madeFrom_withSpan {node : Node} {span : Span} :
    (node.withSpan span).MadeFrom read ↔ node.MadeFrom read := by
  cases node <;> exact Iff.rfl

theorem refuse_eq_ok_iff {names : List String} : refuse kind names = .ok () ↔ names = [] := by
  cases names <;> simp [refuse]

/-- **A bag is accepted if and only if** it has what some node of the kind is made from, its
endpoints are positions where it has them, and it has no name that the kind does not know. -/
theorem ofFields_eq_ok_iff {bag : Fields} {node : Node} (h : bag.Distinct) :
    ofFields kind bag = .ok node ↔
      node.MadeFrom bag.get? ∧ node.kind = kind ∧
      (∀ endpoint, neededEndpoint bag.get? endpoint = .ok (node.span.endpoint endpoint)) ∧
      bag.outside kind.knownNames = [] := by
  rw [ofFields_eq kind h]
  constructor
  · intro hok
    obtain ⟨start, hstart, hok⟩ := exists_of_bind_eq_ok hok
    obtain ⟨stop, hstop, hok⟩ := exists_of_bind_eq_ok hok
    obtain ⟨made, hmade, hok⟩ := exists_of_bind_eq_ok hok
    obtain ⟨⟨⟩, hrefuse, hok⟩ := exists_of_bind_eq_ok hok
    cases hok
    obtain ⟨hfrom, hkind, -⟩ := ofReading_eq_ok_iff.mp hmade
    refine ⟨madeFrom_withSpan.mpr hfrom, (kind_withSpan _ _).trans hkind, fun endpoint => ?_,
      refuse_eq_ok_iff.mp hrefuse⟩
    rw [span_withSpan]
    cases endpoint with
    | start => exact hstart
    | stop => exact hstop
  · rintro ⟨hfrom, rfl, hends, hnone⟩
    rw [hends .start, hends .stop, hfrom.ofReading, hnone]
    change Except.ok ((node.withSpan {}).withSpan node.span) = _
    rw [withSpan_withSpan, withSpan_span]

end Node
end OpenScad
