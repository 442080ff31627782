/-
# Copies with overrides

Bags of overrides act on nodes. Copying a node with nothing overridden gives the
node, and copying twice is copying once with the later overrides put over the
earlier ones, also where the later ones are refused
(`Node.copyWith_acts`).

What a node shows as its fields is what was made of the fields it was built
from, and every kind makes the same of that again: a text read as a number
shows a number, a text cut into lines shows the lines, a node that stands for a
list shows the list. So it makes no difference whether an override is put over
what was given or over what was made of it (`Node.MadeFrom.overridden`).

Key definitions: `Node.read`, `Node.Obtained`.
Key theorems: `Node.MadeFrom.self`, `Node.MadeFrom.overridden`, `Node.ofFields_overlay`,
`Node.copyWith_acts`.
-/
import OpenScad.Proofs.Node.Reading
import OpenScad.Proofs.Tree.Inversion

namespace OpenScad

/-! ### What is made of a value reads the same again -/

namespace Field

theorem mapM_map_ok {α β : Type} {f : β → Except NodeError α} {g : α → β}
    (hf : ∀ a, f (g a) = .ok a) (as : List α) : (as.map g).mapM f = .ok as := by
  induction as with
  | nil => rfl
  | cons a as ih =>
    rw [List.map_cons, List.mapM_cons, hf, ih]
    rfl

theorem asStatements_ofNodes (nodes : List Node) : (ofNodes nodes).asStatements = .ok nodes :=
  mapM_map_ok (f := asNode .block "statements") (g := node) (fun _ => rfl) nodes

/-- The text of a comment reads the same again, unless it is one text that is to be cut. -/
theorem asComment_ofComment {owner : NodeKind} {cut : Bool} {comment : CommentText}
    (h : cut = true → ∃ ls, comment = .lines ls) :
    (ofComment comment).asComment owner cut = .ok comment := by
  cases comment with
  | single text =>
    cases cut with
    | false => rfl
    | true =>
      obtain ⟨ls, hls⟩ := h rfl
      cases hls
  | lines ls =>
    have hlines : (ls.map text).mapM (asLine owner) = .ok ls :=
      mapM_map_ok (f := asLine owner) (g := text) (fun _ => rfl) ls
    rw [ofComment, asComment, hlines]
    rfl

/-- A text that is cut becomes lines. -/
theorem exists_lines_of_asComment {owner : NodeKind} {value : Field} {comment : CommentText}
    (h : value.asComment owner true = .ok comment) : ∃ ls, comment = .lines ls := by
  cases value with
  | text value =>
    cases h
    exact ⟨_, rfl⟩
  | list items =>
    obtain ⟨ls, -, hls⟩ := exists_of_bind_eq_ok h
    cases hls
    exact ⟨ls, rfl⟩
  | _ => cases h

end Field

namespace Node

/-- What is read under the names that the node's kind declares. -/
def read (node : Node) (name : String) : Option Field := node.declared.lookup name

variable {kind : NodeKind} {node : Node} {given given' put : String → Option Field}

/-- What is made of a reading is made of its own fields, too. -/
theorem MadeFrom.self (h : node.MadeFrom given) : node.MadeFrom node.read := by
  cases node with
  | undefined => trivial
  | number | string | path | identifier | boolean => exact ⟨_, rfl, rfl⟩
  | lineComment text => exact ⟨_, rfl, Field.asComment_ofComment fun hcut => nomatch hcut⟩
  | blockComment text =>
    obtain ⟨value, -, htext⟩ := h
    exact ⟨_, rfl, Field.asComment_ofComment fun _ => Field.exists_lines_of_asComment htext⟩
  | block statements => exact ⟨_, rfl, Field.asStatements_ofNodes statements⟩
  | assignment => exact ⟨rfl, rfl, h.2.2⟩
  | binaryOperator => exact ⟨rfl, rfl, rfl⟩
  | unaryOperator => exact ⟨rfl, rfl⟩
  | usePath | includePath => exact ⟨rfl, h.2⟩

/-! ### Overriding what was made of a field -/

/-- An override hides what stands below it. Where there is none, it is enough that both values
below come to the same. -/
theorem needed_or_bind {α : Type} {owner : NodeKind} {name : String} {made value : Field}
    {f : Field → Except NodeError α} (hmade : given' name = some made)
    (hvalue : given name = some value) (hf : f made = f value) :
    needed (fun n => (put n).or (given' n)) owner name >>= f =
      needed (fun n => (put n).or (given n)) owner name >>= f := by
  cases hput : put name with
  | some replaced =>
    have hreplaced : ∀ below : String → Option Field,
        needed (fun n => (put n).or (below n)) owner name = .ok replaced :=
      fun below => needed_of_some (by rw [hput, Option.some_or])
    rw [hreplaced, hreplaced]
  | none =>
    have hbelow : ∀ {below : String → Option Field} {found : Field}, below name = some found →
        needed (fun n => (put n).or (below n)) owner name = .ok found :=
      fun hfound => needed_of_some (by rw [hput, Option.none_or, hfound])
    rw [hbelow hmade, hbelow hvalue]
    exact hf

/-- **An override may be put over what was made of a field as well as over what was given.** -/
theorem MadeFrom.overridden (h : node.MadeFrom given) :
    Node.ofReading node.kind (fun name => (put name).or (node.read name)) =
      Node.ofReading node.kind (fun name => (put name).or (given name)) := by
  -- a kind that keeps what it is given reads the very same
  have hkept (hkept : ∀ name ∈ node.kind.declaredNames, node.read name = given name) :
      Node.ofReading node.kind (fun name => (put name).or (node.read name)) =
        Node.ofReading node.kind (fun name => (put name).or (given name)) :=
    ofReading_congr fun name hname => by rw [hkept name hname]
  have hself := h.self
  cases node with
  | undefined => rfl
  | number | string | path | identifier =>
    obtain ⟨value, hvalue, rfl⟩ := h
    exact needed_or_bind rfl hvalue rfl
  | boolean | lineComment | blockComment | block =>
    obtain ⟨value, hvalue, hmade⟩ := h
    obtain ⟨value', hvalue', hmade'⟩ := hself
    exact needed_or_bind hvalue' hvalue (congrArg (· >>= _) (hmade'.trans hmade.symm))
  | assignment =>
    exact hkept (List.forall_mem_cons.mpr ⟨h.1.symm, List.forall_mem_singleton.mpr h.2.1.symm⟩)
  | binaryOperator =>
    exact hkept (List.forall_mem_cons.mpr ⟨h.1.symm, List.forall_mem_cons.mpr
      ⟨h.2.1.symm, List.forall_mem_singleton.mpr h.2.2.symm⟩⟩)
  | unaryOperator =>
    exact hkept (List.forall_mem_cons.mpr ⟨h.1.symm, List.forall_mem_singleton.mpr h.2.symm⟩)
  | usePath | includePath => exact hkept (List.forall_mem_singleton.mpr h.1.symm)

theorem neededEndpoint_congr {endpoint : Endpoint}
    (h : given' endpoint.name = given endpoint.name) :
    neededEndpoint given' endpoint = neededEndpoint given endpoint := by
  unfold neededEndpoint
  rw [h]

theorem neededEndpoint_or {endpoint : Endpoint}
    (h : neededEndpoint given' endpoint = neededEndpoint given endpoint) :
    neededEndpoint (fun name => (put name).or (given' name)) endpoint =
      neededEndpoint (fun name => (put name).or (given name)) endpoint := by
  cases hput : put endpoint.name with
  | some replaced => exact neededEndpoint_congr (by rw [hput, Option.some_or, Option.some_or])
  | none =>
    calc neededEndpoint (fun name => (put name).or (given' name)) endpoint
        = neededEndpoint given' endpoint := neededEndpoint_congr (by rw [hput, Option.none_or])
      _ = neededEndpoint given endpoint := h
      _ = neededEndpoint (fun name => (put name).or (given name)) endpoint :=
          neededEndpoint_congr (by rw [hput, Option.none_or])

/-! ### The fields of a node -/

theorem map_fst_declared (node : Node) : node.declared.map (·.1) = node.kind.declaredNames := by
  cases node <;> rfl

theorem map_fst_endpointField (node : Node) (endpoint : Endpoint) :
    ((node.endpointField endpoint).map (·.1)).Sublist [endpoint.name] := by
  unfold endpointField
  cases node.span.endpoint endpoint with
  | none => exact List.nil_sublist _
  | some p => exact List.Sublist.refl _

theorem read_withSpan (node : Node) (span : Span) : (node.withSpan span).read = node.read := by
  cases node <;> rfl

/-- The names of the fields are the declared ones and those of the endpoints that are placed. -/
theorem names_fields_sublist (node : Node) :
    node.fields.names.Sublist
      (node.kind.declaredNames ++ [Endpoint.start.name] ++ [Endpoint.stop.name]) := by
  unfold fields Fields.names
  rw [List.map_append, List.map_append, map_fst_declared]
  exact ((List.Sublist.refl _).append (node.map_fst_endpointField .start)).append
    (node.map_fst_endpointField .stop)

theorem distinct_fields (node : Node) : node.fields.Distinct := by
  refine List.Nodup.sublist node.names_fields_sublist ?_
  cases node.kind <;> decide

theorem names_fields_subset (node : Node) : node.fields.names ⊆ node.kind.knownNames := by
  intro name hname
  have hlisted := node.names_fields_sublist.subset hname
  simp only [List.append_assoc, List.mem_append, List.mem_singleton] at hlisted
  simp only [NodeKind.knownNames, List.mem_cons]
  tauto

theorem get?_fields (node : Node) (name : String) : node.fields.get? name =
    (node.read name).or (((node.endpointField .start).lookup name).or
      ((node.endpointField .stop).lookup name)) := by
  rw [fields, Fields.get?, List.lookup_append, List.lookup_append, read, Option.or_assoc]

theorem read_isSome_iff {name : String} :
    (node.read name).isSome ↔ name ∈ node.kind.declaredNames := by
  have hbag : ((Fields.mk node.declared).get? name).isSome ↔
      name ∈ (Fields.mk node.declared).names := Fields.get?_isSome_iff
  rw [← map_fst_declared]
  exact hbag

theorem get?_fields_of_declared {name : String} (h : name ∈ node.kind.declaredNames) :
    node.fields.get? name = node.read name := by
  rw [get?_fields, Option.or_of_isSome (read_isSome_iff.mpr h)]

/-- The endpoints of a node are read back from its fields. -/
theorem neededEndpoint_fields (node : Node) (endpoint : Endpoint) :
    neededEndpoint node.fields.get? endpoint = .ok (node.span.endpoint endpoint) := by
  have hnone : node.read endpoint.name = none := by
    rw [← Option.not_isSome_iff_eq_none, read_isSome_iff]
    exact node.kind.name_not_mem_declaredNames endpoint
  have hget : node.fields.get? endpoint.name = (node.span.endpoint endpoint).map .position := by
    rw [get?_fields, hnone, Option.none_or]
    unfold endpointField
    cases endpoint <;> cases node.span.endpoint .start <;> cases node.span.endpoint .stop <;> rfl
  rw [neededEndpoint, hget]
  cases node.span.endpoint endpoint <;> rfl

/-! ### Overlays of fields -/

/-- **Overrides do not tell a node's fields from what the node was built from.** They are
accepted over the one if and only if they are over the other, and give the same node or the same
error. -/
theorem ofFields_overlay {bag : Fields} (hd : bag.Distinct) (h : ofFields kind bag = .ok node)
    (overrides : Fields) :
    ofFields kind (node.fields.overlay overrides) = ofFields kind (bag.overlay overrides) := by
  obtain ⟨hfrom, rfl, hends, hnone⟩ := (ofFields_eq_ok_iff hd).mp h
  have hget : ∀ b : Fields, (b.overlay overrides).get? =
      fun name => ((Fields.empty.overlay overrides).get? name).or (b.get? name) :=
    fun b => funext (b.get?_overlay overrides)
  have hend : ∀ endpoint, neededEndpoint (node.fields.overlay overrides).get? endpoint =
      neededEndpoint (bag.overlay overrides).get? endpoint := by
    intro endpoint
    rw [hget node.fields, hget bag]
    exact neededEndpoint_or ((node.neededEndpoint_fields endpoint).trans (hends endpoint).symm)
  have hread : ofReading node.kind (node.fields.overlay overrides).get? =
      ofReading node.kind (bag.overlay overrides).get? := by
    rw [hget node.fields, hget bag, ← hfrom.overridden]
    exact ofReading_congr fun name hname => by rw [get?_fields_of_declared hname]
  have houtside : (node.fields.overlay overrides).outside node.kind.knownNames =
      (bag.overlay overrides).outside node.kind.knownNames := by
    rw [Fields.outside_overlay node.names_fields_subset,
      Fields.outside_overlay (Fields.outside_eq_nil_iff.mp hnone)]
  rw [ofFields_eq _ (node.distinct_fields.overlay _), ofFields_eq _ (hd.overlay _), hend, hend,
    hread, houtside]

/-- A copy is built from the node's fields with the overrides over them. -/
theorem kind_of_copyWith {overrides : Fields} {copy : Node}
    (h : node.copyWith overrides = .ok copy) : copy.kind = node.kind :=
  ((ofFields_eq_ok_iff (node.distinct_fields.overlay _)).mp h).2.1

theorem madeFrom_fields (h : node.MadeFrom node.read) : node.MadeFrom node.fields.get? := by
  have hread : ofReading node.kind node.read = ofReading node.kind node.fields.get? :=
    ofReading_congr fun name hname => (get?_fields_of_declared hname).symm
  have hbuilt := (ofReading_eq_ok_iff.mp (hread ▸ h.ofReading)).1
  exact madeFrom_withSpan.mp hbuilt

theorem copyWith_empty (h : node.MadeFrom node.read) : node.copyWith .empty = .ok node :=
  (ofFields_eq_ok_iff node.distinct_fields).mpr ⟨madeFrom_fields h, rfl,
    node.neededEndpoint_fields, Fields.outside_eq_nil_iff.mpr node.names_fields_subset⟩

/-! ### Nodes that can be obtained -/

/-- A node as it is made by a constructor, from a bag of fields, as a copy, or by placing an
endpoint. Its parts may be any nodes. A line comment keeps its text, or is given as lines; the
text of a block comment is cut into lines, or given as such. -/
inductive Obtained : Node → Prop where
  | number (value) : Obtained (.number value {})
  | string (value) : Obtained (.string value {})
  | path (value) : Obtained (.path value {})
  | boolean (value) : Obtained (.boolean value {})
  | identifier (value) : Obtained (.identifier value {})
  | undefined : Obtained (.undefined {})
  | lineComment (text) : Obtained (.lineComment text {})
  | blockComment (lines) : Obtained (.blockComment (.lines lines) {})
  | block (statements) : Obtained (.block statements {})
  | binaryOperator (operator left right) : Obtained (.binaryOperator operator left right {})
  | unaryOperator (operator value) : Obtained (.unaryOperator operator value {})
  | assign {name value node : Node} (made : assign name value = .ok node) : Obtained node
  | use {file node : Node} (made : use file = .ok node) : Obtained node
  | inclusion {file node : Node} (made : inclusion file = .ok node) : Obtained node
  | ofFields {kind : NodeKind} {bag : Fields} {node : Node} (distinct : bag.Distinct)
      (made : ofFields kind bag = .ok node) : Obtained node
  | copyWith {node copy : Node} {overrides : Fields} (obtained : Obtained node)
      (made : node.copyWith overrides = .ok copy) : Obtained copy
  | place {node placed : Node} {endpoint : Endpoint} {position : Position}
      (obtained : Obtained node) (made : node.place endpoint position = .ok placed) :
      Obtained placed
  | placeLike {node placed other : Node} {endpoint : Endpoint} (obtained : Obtained node)
      (made : node.placeLike endpoint other = .ok placed) : Obtained placed

theorem madeFrom_read_withSpan {span : Span} :
    (node.withSpan span).MadeFrom (node.withSpan span).read ↔ node.MadeFrom node.read := by
  rw [madeFrom_withSpan, read_withSpan]

theorem madeFrom_read_of_place {endpoint : Endpoint} {position : Position} {placed : Node}
    (h : node.MadeFrom node.read) (hplaced : node.place endpoint position = .ok placed) :
    placed.MadeFrom placed.read := by
  obtain ⟨span, -, hspan⟩ := exists_of_bind_eq_ok hplaced
  cases hspan
  exact madeFrom_read_withSpan.mpr h

/-- A node that can be obtained is made of its own fields. -/
theorem Obtained.madeFrom (h : node.Obtained) : node.MadeFrom node.read := by
  induction h with
  | undefined => trivial
  | number | string | path | boolean | identifier => exact ⟨_, rfl, rfl⟩
  | lineComment => exact ⟨_, rfl, Field.asComment_ofComment fun hcut => nomatch hcut⟩
  | blockComment lines => exact ⟨_, rfl, Field.asComment_ofComment fun _ => ⟨lines, rfl⟩⟩
  | block statements => exact ⟨_, rfl, Field.asStatements_ofNodes statements⟩
  | binaryOperator => exact ⟨rfl, rfl, rfl⟩
  | unaryOperator => exact ⟨rfl, rfl⟩
  | assign made =>
    obtain ⟨hkind, rfl⟩ := Rule.kind_of_assign made
    exact ⟨rfl, rfl, hkind⟩
  | use made =>
    obtain ⟨hkind, rfl⟩ := Rule.kind_of_use made
    exact ⟨rfl, hkind⟩
  | inclusion made =>
    obtain ⟨hkind, rfl⟩ := Rule.kind_of_inclusion made
    exact ⟨rfl, hkind⟩
  | ofFields distinct made => exact ((ofFields_eq_ok_iff distinct).mp made).1.self
  | @copyWith node _ overrides _ made =>
    exact ((ofFields_eq_ok_iff (node.distinct_fields.overlay overrides)).mp made).1.self
  | place _ made ih => exact madeFrom_read_of_place ih made
  | placeLike _ made ih =>
    obtain ⟨position, -, hplaced⟩ := exists_of_bind_eq_ok made
    exact madeFrom_read_of_place ih hplaced

/-- **Bags of overrides act on nodes.** Without overrides the copy is the node. A copy of a copy
is a copy of the node with the later overrides put over the earlier ones, or it is refused for the
same reason. -/
theorem copyWith_acts (h : node.Obtained) :
    node.copyWith .empty = .ok node ∧
    ∀ (first second : Fields) (copy : Node), first.Distinct → node.copyWith first = .ok copy →
      copy.copyWith second = node.copyWith (first.overlay second) := by
  refine ⟨copyWith_empty h.madeFrom, fun first second copy hfirst hcopy => ?_⟩
  rw [copyWith, copyWith, kind_of_copyWith hcopy, Fields.overlay_overlay hfirst]
  exact ofFields_overlay (node.distinct_fields.overlay _) hcopy second

/-- A block comment is given a text, which is cut, and then an end that is no position. -/
theorem copyWith_acts_sample :
    let node := blockComment (.lines ["a"]) {}
    let first : Fields := { entries := [("value", .text "b\nc")] }
    let second : Fields := { entries := [("end", .null)] }
    let copy := blockComment (.lines ["b", "c"]) {}
    node.copyWith .empty = .ok node ∧ node.copyWith first = .ok copy ∧
      copy.copyWith second = node.copyWith (first.overlay second) ∧
      copy.copyWith second = .error (.notAPosition .stop "null") := by
  intro node first second copy
  have hcopy : node.copyWith first = .ok copy := rfl
  have hnode : node.Obtained := .blockComment ["a"]
  obtain ⟨hempty, hacts⟩ := copyWith_acts hnode
  exact ⟨hempty, hcopy, hacts first second copy (by decide) hcopy, rfl⟩

end Node
end OpenScad
