/-
# Which bags make a node

A bag makes a node of a kind if and only if its endpoints are positions, the
kind accepts what the bag has under every name that it declares, and there is
no other name (`Fields.Suits`). What a kind accepts under a name, and what it
keeps of it, is a table with a line for each case (`NodeKind.Keeps`): nothing
that is given is passed over, and only the value of an undefined literal may be
absent. The node shows what was kept, in the order of the kind's names, and
then the endpoints that were given.

A bag is a finite map, and the order of its fields is not looked at until a
name that the kind does not know is refused: of several, the first one.

Key definitions: `NodeKind.Keeps`, `Fields.Suits`.
Key theorems: `Node.MadeFrom.keeps`, `Node.exists_madeFrom`, `Node.ofFields_perm`,
`Node.ofFields_accepts`.
-/
import OpenScad.Proofs.Node.Copy

namespace OpenScad

/-! ### What a kind keeps -/

/-- The kind accepts what is given under the name, or that nothing is given there, and keeps the
last value. -/
inductive NodeKind.Keeps : NodeKind → String → Option Field → Field → Prop where
  | number (value : Field) : Keeps .number "value" (some value) (.number value.toNumber)
  | text {kind : NodeKind} (coerces : kind ∈ [.string, .path, .identifier]) (value : Field) :
      Keeps kind "value" (some value) (.text value.toText)
  | boolean (b : Bool) : Keeps .boolean "value" (some (.boolean b)) (.boolean b)
  | trueWord : Keeps .boolean "value" (some (.text "true")) (.boolean true)
  | falseWord : Keeps .boolean "value" (some (.text "false")) (.boolean false)
  | undefined (given : Option Field) : Keeps .undefined "value" given .null
  | lineComment (text : String) : Keeps .lineComment "value" (some (.text text)) (.text text)
  | blockComment (text : String) :
      Keeps .blockComment "value" (some (.text text)) (.list ((Text.lines text).map .text))
  | commentLines {kind : NodeKind} (comments : kind ∈ [.lineComment, .blockComment])
      (ls : List String) : Keeps kind "value" (some (.list (ls.map .text))) (.list (ls.map .text))
  | identifier {name : Node} (kind_name : name.kind = .identifier) :
      Keeps .assignment "identifier" (some (.node name)) (.node name)
  | operand {kind : NodeKind} {name : String}
      (takes : (kind, name) ∈ [(NodeKind.assignment, "value"), (.binaryOperator, "leftValue"),
        (.binaryOperator, "rightValue"), (.unaryOperator, "value")]) (node : Node) :
      Keeps kind name (some (.node node)) (.node node)
  | statement (node : Node) : Keeps .block "statements" (some (.node node)) (.list [.node node])
  | statements (nodes : List Node) :
      Keeps .block "statements" (some (.list (nodes.map .node))) (.list (nodes.map .node))
  | operator {kind : NodeKind} (operates : kind ∈ [.binaryOperator, .unaryOperator])
      (text : String) : Keeps kind "operator" (some (.text text)) (.text text)
  | file {kind : NodeKind} (names : kind ∈ [.usePath, .includePath]) {path : Node}
      (kind_path : path.kind = .path) : Keeps kind "path" (some (.node path)) (.node path)

/-- The bag has what a node of the kind needs, and nothing that it does not know. -/
structure Fields.Suits (kind : NodeKind) (bag : Fields) : Prop where
  endpoints : ∀ (endpoint : Endpoint) (value : Field), bag.get? endpoint.name = some value →
    ∃ p, value = .position p
  declared : ∀ name ∈ kind.declaredNames, ∃ kept, kind.Keeps name (bag.get? name) kept
  known : bag.names ⊆ kind.knownNames

namespace Field

/-- Items that are all read are what they are read as. -/
theorem eq_map_of_mapM {α : Type} {f : Field → Except NodeError α} {g : α → Field}
    (hf : ∀ {item : Field} {a : α}, f item = .ok a → item = g a) :
    ∀ {items : List Field} {as : List α}, items.mapM f = .ok as → items = as.map g
  | [], as, h => by
    cases h
    rfl
  | item :: items, as, h => by
    rw [List.mapM_cons] at h
    obtain ⟨a, ha, h⟩ := exists_of_bind_eq_ok h
    obtain ⟨more, hmore, h⟩ := exists_of_bind_eq_ok h
    cases h
    rw [hf ha, eq_map_of_mapM hf hmore, List.map_cons]

theorem eq_text_of_asLine {owner : NodeKind} {item : Field} {line : String}
    (h : item.asLine owner = .ok line) : item = .text line := by
  cases item with
  | text value =>
    cases h
    rfl
  | _ => cases h

theorem eq_node_of_asNode {owner : NodeKind} {name : String} {item : Field} {node : Node}
    (h : item.asNode owner name = .ok node) : item = .node node := by
  cases item with
  | node value =>
    cases h
    rfl
  | _ => cases h

end Field

namespace NodeKind
namespace Keeps

variable {kind : NodeKind} {name : String} {given : Option Field} {kept : Field}

/-- Only the value of an undefined literal may be absent. -/
theorem exists_given (h : kind.Keeps name given kept) (hkind : kind ≠ .undefined) :
    ∃ value, given = some value := by
  cases h with
  | undefined => exact absurd rfl hkind
  | _ => exact ⟨_, rfl⟩

theorem toBoolean (h : Keeps .boolean name given kept) :
    ∃ value b, given = some value ∧ value.toBoolean = .ok b := by
  cases h with
  | boolean b => exact ⟨_, b, rfl, rfl⟩
  | trueWord => exact ⟨_, true, rfl, rfl⟩
  | falseWord => exact ⟨_, false, rfl, rfl⟩
  | text h | commentLines h | operand h | operator h | file h => simp at h

theorem asComment (h : kind.Keeps name given kept)
    (hkind : kind = .lineComment ∨ kind = .blockComment) (owner : NodeKind) (cut : Bool) :
    ∃ value comment, given = some value ∧ value.asComment owner cut = .ok comment := by
  cases h with
  | lineComment text | blockComment text => exact ⟨_, _, rfl, rfl⟩
  | commentLines _ ls => exact ⟨_, .lines ls, rfl, Field.asComment_ofComment fun _ => ⟨ls, rfl⟩⟩
  | text h | operand h | operator h | file h => rcases hkind with rfl | rfl <;> simp at h
  | _ => simp at hkind

theorem asStatements (h : Keeps .block name given kept) :
    ∃ value nodes, given = some value ∧ value.asStatements = .ok nodes := by
  cases h with
  | statement node => exact ⟨_, [node], rfl, rfl⟩
  | statements nodes => exact ⟨_, nodes, rfl, Field.asStatements_ofNodes nodes⟩
  | text h | commentLines h | operand h | operator h | file h => simp at h

/-- Under the name "identifier" an assignment has an identifier, under any other name a node. -/
theorem assigned (h : Keeps .assignment name given kept) :
    ∃ node, given = some (.node node) ∧ (name = "identifier" → node.kind = .identifier) := by
  cases h with
  | identifier hkind => exact ⟨_, rfl, fun _ => hkind⟩
  | operand _ node => exact ⟨node, rfl, by simp_all⟩
  | text h | commentLines h | operator h | file h => simp at h

/-- Under the name "operator" an operator has a text, under any other name a node. -/
theorem operated (h : kind.Keeps name given kept)
    (hkind : kind = .binaryOperator ∨ kind = .unaryOperator) :
    (name = "operator" → ∃ text, given = some (.text text)) ∧
      (name ≠ "operator" → ∃ node, given = some (.node node)) := by
  cases h with
  | operator _ text => exact ⟨fun _ => ⟨text, rfl⟩, fun hname => absurd rfl hname⟩
  | operand h node => exact ⟨fun hname => by simp [hname] at h, fun _ => ⟨node, rfl⟩⟩
  | text h | commentLines h | file h => rcases hkind with rfl | rfl <;> simp at h
  | _ => simp at hkind

theorem exists_path (h : kind.Keeps name given kept)
    (hkind : kind = .usePath ∨ kind = .includePath) :
    ∃ path, given = some (.node path) ∧ path.kind = .path := by
  cases h with
  | file _ hpath => exact ⟨_, rfl, hpath⟩
  | text h | commentLines h | operator h | operand h =>
    rcases hkind with rfl | rfl <;> simp at h
  | _ => simp at hkind

end Keeps
end NodeKind

/-! ### Parts that are made are kept -/

namespace Field

variable {value : Field}

theorem keeps_of_toBoolean {b : Bool} (h : value.toBoolean = .ok b) :
    NodeKind.Keeps .boolean "value" (some value) (.boolean b) := by
  unfold toBoolean at h
  split at h
  · cases h
    exact .boolean b
  · cases h
    exact .trueWord
  · cases h
    exact .falseWord
  · cases h

theorem keeps_of_lines {kind owner : NodeKind} {cut : Bool} {items : List Field}
    {comment : CommentText} (hkind : kind ∈ [.lineComment, .blockComment])
    (h : (list items).asComment owner cut = .ok comment) :
    kind.Keeps "value" (some (.list items)) (ofComment comment) := by
  obtain ⟨ls, hls, hok⟩ := exists_of_bind_eq_ok h
  cases hok
  rw [eq_map_of_mapM eq_text_of_asLine hls]
  exact .commentLines hkind ls

theorem keeps_of_asComment_false {owner : NodeKind} {comment : CommentText}
    (h : value.asComment owner false = .ok comment) :
    NodeKind.Keeps .lineComment "value" (some value) (ofComment comment) := by
  cases value with
  | text value =>
    cases h
    exact .lineComment value
  | list items => exact keeps_of_lines (by simp) h
  | _ => cases h

theorem keeps_of_asComment_true {owner : NodeKind} {comment : CommentText}
    (h : value.asComment owner true = .ok comment) :
    NodeKind.Keeps .blockComment "value" (some value) (ofComment comment) := by
  cases value with
  | text value =>
    cases h
    exact .blockComment value
  | list items => exact keeps_of_lines (by simp) h
  | _ => cases h

theorem keeps_of_asStatements {nodes : List Node} (h : value.asStatements = .ok nodes) :
    NodeKind.Keeps .block "statements" (some value) (ofNodes nodes) := by
  cases value with
  | node n =>
    cases h
    exact .statement n
  | list items =>
    rw [eq_map_of_mapM eq_node_of_asNode h]
    exact .statements nodes
  | _ => cases h

end Field

namespace Node

variable {kind : NodeKind} {node : Node} {read : String → Option Field}

/-- **A node shows what its kind keeps of the reading that it is made from.** -/
theorem MadeFrom.keeps (h : node.MadeFrom read) :
    ∀ entry ∈ node.declared, node.kind.Keeps entry.1 (read entry.1) entry.2 := by
  cases node with
  | number =>
    obtain ⟨value, hvalue, rfl⟩ := h
    exact List.forall_mem_singleton.mpr (hvalue ▸ .number value)
  | string | path | identifier =>
    obtain ⟨value, hvalue, rfl⟩ := h
    exact List.forall_mem_singleton.mpr (hvalue ▸ .text (by simp [kind]) value)
  | boolean =>
    obtain ⟨value, hvalue, hb⟩ := h
    exact List.forall_mem_singleton.mpr (hvalue ▸ Field.keeps_of_toBoolean hb)
  | undefined => exact List.forall_mem_singleton.mpr (.undefined _)
  | lineComment =>
    obtain ⟨value, hvalue, htext⟩ := h
    exact List.forall_mem_singleton.mpr (hvalue ▸ Field.keeps_of_asComment_false htext)
  | blockComment =>
    obtain ⟨value, hvalue, htext⟩ := h
    exact List.forall_mem_singleton.mpr (hvalue ▸ Field.keeps_of_asComment_true htext)
  | assignment name value =>
    obtain ⟨hname, hvalue, hkind⟩ := h
    exact List.forall_mem_cons.mpr ⟨hname ▸ .identifier hkind,
      List.forall_mem_singleton.mpr (hvalue ▸ .operand (by simp [kind]) value)⟩
  | block =>
    obtain ⟨value, hvalue, hnodes⟩ := h
    exact List.forall_mem_singleton.mpr (hvalue ▸ Field.keeps_of_asStatements hnodes)
  | binaryOperator operator left right =>
    obtain ⟨hoperator, hleft, hright⟩ := h
    exact List.forall_mem_cons.mpr ⟨hoperator ▸ .operator (by simp [kind]) operator,
      List.forall_mem_cons.mpr ⟨hleft ▸ .operand (by simp [kind]) left,
        List.forall_mem_singleton.mpr (hright ▸ .operand (by simp [kind]) right)⟩⟩
  | unaryOperator operator value =>
    obtain ⟨hoperator, hvalue⟩ := h
    exact List.forall_mem_cons.mpr ⟨hoperator ▸ .operator (by simp [kind]) operator,
      List.forall_mem_singleton.mpr (hvalue ▸ .operand (by simp [kind]) value)⟩
  | usePath | includePath =>
    obtain ⟨hfile, hkind⟩ := h
    exact List.forall_mem_singleton.mpr (hfile ▸ .file (by simp [kind]) hkind)

/-- **A node of the kind is made from every reading in which the kind accepts what is under each
of the names that it declares.** -/
theorem exists_madeFrom
    (h : ∀ name ∈ kind.declaredNames, ∃ kept, kind.Keeps name (read name) kept) :
    ∃ node : Node, node.kind = kind ∧ node.span = {} ∧ node.MadeFrom read := by
  have hkeeps {name : String} (hname : name ∈ kind.declaredNames) := (h name hname).choose_spec
  cases kind
  case number =>
    obtain ⟨value, hvalue⟩ := (hkeeps (.head _)).exists_given (by decide)
    exact ⟨number value.toNumber {}, rfl, rfl, value, hvalue, rfl⟩
  case string =>
    obtain ⟨value, hvalue⟩ := (hkeeps (.head _)).exists_given (by decide)
    exact ⟨string value.toText {}, rfl, rfl, value, hvalue, rfl⟩
  case path =>
    obtain ⟨value, hvalue⟩ := (hkeeps (.head _)).exists_given (by decide)
    exact ⟨path value.toText {}, rfl, rfl, value, hvalue, rfl⟩
  case identifier =>
    obtain ⟨value, hvalue⟩ := (hkeeps (.head _)).exists_given (by decide)
    exact ⟨identifier value.toText {}, rfl, rfl, value, hvalue, rfl⟩
  case boolean =>
    obtain ⟨value, b, hvalue, hb⟩ := (hkeeps (.head _)).toBoolean
    exact ⟨boolean b {}, rfl, rfl, value, hvalue, hb⟩
  case undefined => exact ⟨undefined {}, rfl, rfl, trivial⟩
  case lineComment =>
    obtain ⟨value, comment, hvalue, hcomment⟩ :=
      (hkeeps (.head _)).asComment (.inl rfl) .lineComment false
    exact ⟨lineComment comment {}, rfl, rfl, value, hvalue, hcomment⟩
  case blockComment =>
    obtain ⟨value, comment, hvalue, hcomment⟩ :=
      (hkeeps (.head _)).asComment (.inr rfl) .blockComment true
    exact ⟨blockComment comment {}, rfl, rfl, value, hvalue, hcomment⟩
  case assignment =>
    obtain ⟨name, hname, hkind⟩ := (hkeeps (.head _)).assigned
    obtain ⟨value, hvalue, -⟩ := (hkeeps (.tail _ (.head _))).assigned
    exact ⟨assignment name value {}, rfl, rfl, hname, hvalue, hkind rfl⟩
  case block =>
    obtain ⟨value, nodes, hvalue, hnodes⟩ := (hkeeps (.head _)).asStatements
    exact ⟨block nodes {}, rfl, rfl, value, hvalue, hnodes⟩
  case binaryOperator =>
    obtain ⟨operator, hoperator⟩ := ((hkeeps (.head _)).operated (.inl rfl)).1 rfl
    obtain ⟨left, hleft⟩ := ((hkeeps (.tail _ (.head _))).operated (.inl rfl)).2 (by decide)
    obtain ⟨right, hright⟩ :=
      ((hkeeps (.tail _ (.tail _ (.head _)))).operated (.inl rfl)).2 (by decide)
    exact ⟨binaryOperator operator left right {}, rfl, rfl, hoperator, hleft, hright⟩
  case unaryOperator =>
    obtain ⟨operator, hoperator⟩ := ((hkeeps (.head _)).operated (.inr rfl)).1 rfl
    obtain ⟨value, hvalue⟩ := ((hkeeps (.tail _ (.head _))).operated (.inr rfl)).2 (by decide)
    exact ⟨unaryOperator operator value {}, rfl, rfl, hoperator, hvalue⟩
  case usePath =>
    obtain ⟨file, hfile, hkind⟩ := (hkeeps (.head _)).exists_path (.inl rfl)
    exact ⟨usePath file {}, rfl, rfl, hfile, hkind⟩
  case includePath =>
    obtain ⟨file, hfile, hkind⟩ := (hkeeps (.head _)).exists_path (.inr rfl)
    exact ⟨includePath file {}, rfl, rfl, hfile, hkind⟩

/-! ### Endpoints -/

theorem neededEndpoint_eq_ok_iff {endpoint : Endpoint} {p : Option Position} :
    neededEndpoint read endpoint = .ok p ↔ read endpoint.name = p.map .position := by
  unfold neededEndpoint
  cases hread : read endpoint.name with
  | none => cases p <;> simp
  | some value => cases value <;> cases p <;> simp

/-- An endpoint of a node is the position that was given for it, if one was. -/
theorem get?_fields_endpoint (node : Node) (endpoint : Endpoint) :
    node.fields.get? endpoint.name = (node.span.endpoint endpoint).map .position :=
  neededEndpoint_eq_ok_iff.mp (node.neededEndpoint_fields endpoint)

theorem map_fst_endpointField_eq (node : Node) (endpoint : Endpoint) :
    (node.endpointField endpoint).map (·.1) =
      [endpoint.name].filter node.fields.contains := by
  rw [List.filter_singleton, Fields.contains, get?_fields_endpoint, endpointField]
  cases node.span.endpoint endpoint <;> rfl

/-- The fields of a node are the declared ones, and then the endpoints that it has. -/
theorem names_fields (node : Node) : node.fields.names = node.kind.declaredNames ++
    [Endpoint.start.name, Endpoint.stop.name].filter node.fields.contains := by
  have hsplit : [Endpoint.start.name, Endpoint.stop.name].filter node.fields.contains =
      [Endpoint.start.name].filter node.fields.contains ++
        [Endpoint.stop.name].filter node.fields.contains := by
    rw [← List.filter_append]
    rfl
  rw [hsplit, ← map_fst_endpointField_eq, ← map_fst_endpointField_eq, ← map_fst_declared,
    ← List.map_append, ← List.map_append, ← List.append_assoc]
  rfl

/-! ### Acceptance -/

variable {bag other : Fields}

/-- A bag that suits a kind makes a node of it. -/
theorem ofFields_of_suits (h : bag.Distinct) (hsuits : bag.Suits kind) :
    ∃ node, ofFields kind bag = .ok node := by
  obtain ⟨node, hkind, -, hmade⟩ := exists_madeFrom hsuits.declared
  have hends : ∀ endpoint, ∃ p, neededEndpoint bag.get? endpoint = .ok p := by
    intro endpoint
    cases hget : bag.get? endpoint.name with
    | none => exact ⟨none, neededEndpoint_eq_ok_iff.mpr hget⟩
    | some value =>
      obtain ⟨p, rfl⟩ := hsuits.endpoints endpoint value hget
      exact ⟨some p, neededEndpoint_eq_ok_iff.mpr hget⟩
  obtain ⟨start, hstart⟩ := hends .start
  obtain ⟨stop, hstop⟩ := hends .stop
  refine ⟨node.withSpan { start, stop }, (ofFields_eq_ok_iff h).mpr ⟨madeFrom_withSpan.mpr hmade,
    (kind_withSpan _ _).trans hkind, fun endpoint => ?_,
    Fields.outside_eq_nil_iff.mpr hsuits.known⟩⟩
  rw [span_withSpan]
  cases endpoint with
  | start => exact hstart
  | stop => exact hstop

/-- A node that is built reads back the endpoints that were given. -/
theorem get?_endpoint_of_ofFields (h : bag.Distinct) (hnode : ofFields kind bag = .ok node)
    (endpoint : Endpoint) : node.fields.get? endpoint.name = bag.get? endpoint.name := by
  obtain ⟨-, -, hends, -⟩ := (ofFields_eq_ok_iff h).mp hnode
  rw [get?_fields_endpoint, neededEndpoint_eq_ok_iff.mp (hends endpoint)]

/-- A node that is built reads back what its kind keeps of what was given. -/
theorem keeps_of_ofFields (h : bag.Distinct) (hnode : ofFields kind bag = .ok node)
    {name : String} (hname : name ∈ kind.declaredNames) :
    ∃ kept, node.fields.get? name = some kept ∧ kind.Keeps name (bag.get? name) kept := by
  obtain ⟨hmade, rfl, -, -⟩ := (ofFields_eq_ok_iff h).mp hnode
  obtain ⟨kept, hkept⟩ := Option.isSome_iff_exists.mp (read_isSome_iff.mpr hname)
  have hentry : (name, kept) ∈ (Fields.mk node.declared).entries :=
    Fields.mem_entries_of_get? hkept
  exact ⟨kept, (get?_fields_of_declared hname).trans hkept, hmade.keeps _ hentry⟩

theorem suits_of_ofFields (h : bag.Distinct) (hnode : ofFields kind bag = .ok node) :
    bag.Suits kind where
  endpoints endpoint value hget := by
    rw [← get?_endpoint_of_ofFields h hnode, get?_fields_endpoint] at hget
    obtain ⟨p, -, hp⟩ := Option.map_eq_some_iff.mp hget
    exact ⟨p, hp.symm⟩
  declared name hname :=
    have ⟨kept, _, hkept⟩ := keeps_of_ofFields h hnode hname
    ⟨kept, hkept⟩
  known := Fields.outside_eq_nil_iff.mp ((ofFields_eq_ok_iff h).mp hnode).2.2.2

/-- **The order of the fields matters to one thing only:** of the names that the kind does not
know, the first one is refused. -/
theorem ofFields_perm (h : bag.Distinct) (hperm : bag.entries.Perm other.entries) :
    ofFields kind bag = ofFields kind other ∨
      ∃ name name', ofFields kind bag = .error (.unknownField kind name) ∧
        ofFields kind other = .error (.unknownField kind name') := by
  rw [ofFields_eq kind h, ofFields_eq kind (h.perm hperm), h.get?_perm hperm]
  have hrest := Fields.outside_perm hperm kind.knownNames
  cases hbag : bag.outside kind.knownNames with
  | nil =>
    rw [hbag] at hrest
    rw [hrest.nil_eq]
    exact .inl rfl
  | cons name names =>
    cases hother : other.outside kind.knownNames with
    | nil => exact absurd hrest.length_eq (by simp [hbag, hother])
    | cons name' names' =>
      cases neededEndpoint other.get? .start with
      | error e => exact .inl rfl
      | ok start =>
        cases neededEndpoint other.get? .stop with
        | error e => exact .inl rfl
        | ok stop =>
          cases Node.ofReading kind other.get? with
          | error e => exact .inl rfl
          | ok node => exact .inr ⟨name, name', rfl, rfl⟩

/-- **A bag makes a node if and only if it suits the kind.** The node has the kind and shows what
the kind keeps of what was given, in the order of the declared names, and then the endpoints that
were given. Putting the fields in another order changes neither the node nor the error, but for
which unknown name is refused. -/
theorem ofFields_accepts (h : bag.Distinct) (kind : NodeKind) :
    ((∃ node, ofFields kind bag = .ok node) ↔ bag.Suits kind) ∧
    (∀ node, ofFields kind bag = .ok node →
      node.kind = kind ∧
      node.fields.names = kind.declaredNames ++
        [Endpoint.start.name, Endpoint.stop.name].filter bag.contains ∧
      (∀ name ∈ kind.declaredNames, ∃ kept, node.fields.get? name = some kept ∧
        kind.Keeps name (bag.get? name) kept) ∧
      ∀ endpoint : Endpoint, node.fields.get? endpoint.name = bag.get? endpoint.name) ∧
    ∀ other : Fields, bag.entries.Perm other.entries →
      ofFields kind bag = ofFields kind other ∨
        ∃ name name', ofFields kind bag = .error (.unknownField kind name) ∧
          ofFields kind other = .error (.unknownField kind name') := by
  refine ⟨⟨fun ⟨node, hnode⟩ => suits_of_ofFields h hnode, ofFields_of_suits h⟩,
    fun node hnode => ?_, fun other hperm => ofFields_perm h hperm⟩
  obtain ⟨-, hkind, -, -⟩ := (ofFields_eq_ok_iff h).mp hnode
  have hends := get?_endpoint_of_ofFields h hnode
  have hgiven : [Endpoint.start.name, Endpoint.stop.name].filter node.fields.contains =
      [Endpoint.start.name, Endpoint.stop.name].filter bag.contains := by
    refine List.filter_congr fun name hname => ?_
    have hendpoint : name = Endpoint.start.name ∨ name = Endpoint.stop.name := by
      simpa using hname
    unfold Fields.contains
    rcases hendpoint with rfl | rfl
    · rw [hends .start]
    · rw [hends .stop]
  refine ⟨hkind, ?_, fun name hname => keeps_of_ofFields h hnode hname, hends⟩
  rw [names_fields, hkind, hgiven]

/-- A block comment is given an end and then a text, or the text first. -/
theorem ofFields_accepts_sample :
    let stop : Position := { line := 2, column := 4, offset := 9 }
    let bag : Fields := { entries := [("end", .position stop), ("value", .text "a\nb")] }
    let other : Fields := { entries := [("value", .text "a\nb"), ("end", .position stop)] }
    let node := blockComment (.lines ["a", "b"]) { stop }
    bag.Distinct ∧ bag.Suits .blockComment ∧ ofFields .blockComment bag = .ok node ∧
      node.fields.names = ["value", "end"] ∧ bag.entries.Perm other.entries ∧
      ofFields .blockComment other = .ok node := by
  intro stop bag other node
  have hdistinct : bag.Distinct := by decide
  have hswap : bag.entries.Perm other.entries := .swap _ _ _
  have hnode : ofFields .blockComment bag = .ok node := rfl
  obtain ⟨hsuits, hshown, hperm⟩ := ofFields_accepts hdistinct .blockComment
  refine ⟨hdistinct, hsuits.mp ⟨node, hnode⟩, hnode, (hshown node hnode).2.1, hswap, ?_⟩
  obtain hsame | ⟨_, _, hrefused, -⟩ := hperm other hswap
  · rw [← hsame, hnode]
  · cases hnode.symm.trans hrefused

end Node
end OpenScad
