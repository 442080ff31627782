/-
# Operations and their leaves

The leaves of a match-result are the tokens and nodes in it from left to right,
however deep in sequences they stand; absent slots are no leaves. Flattening a
match-result gives its leaves (`Data.leaves_iff`).

The leaves alone decide what an operation gives (`buildOperation_gives`), and
`Rule.OperationGives` lists the outcomes. Only four sequences of leaves have a
shape. An operator before its operand or between its operands makes a node, if
both endpoints of that node are to be had. The start is asked for before the
end, and the token of an operator gives a start only if it has a line and a
column; between operands, nothing is asked of it.

Key definitions: `Data.Leaves`, `Shape.expected`, `Rule.OperationGives`.
Key theorems: `Data.leaves_iff`, `Rule.OperationGives.holds`,
`Rule.exists_operationGives`, `buildOperation_gives`.
-/
import OpenScad.Proofs.Tree.Elements
import OpenScad.Proofs.Tree.Inversion

namespace OpenScad

/-! ### Leaves -/

namespace Data

/-- The tokens and nodes in a match-result from left to right. -/
inductive Leaves : Data → List Element → Prop where
  | absent : Leaves .absent []
  | token (t : Token) : Leaves (.token t) [.token t]
  | node (n : Node) : Leaves (.node n) [.node n]
  | nil : Leaves (.sequence []) []
  | cons {item : Data} {items : List Data} {es later : List Element} (first : Leaves item es)
      (rest : Leaves (.sequence items) later) : Leaves (.sequence (item :: items)) (es ++ later)

theorem Leaves.flatten_eq {d : Data} {es : List Element} (h : d.Leaves es) : d.flatten = es := by
  induction h with
  | absent => rfl
  | token t => rfl
  | node n => rfl
  | nil => rfl
  | cons first rest ihfirst ihrest =>
    rw [flatten] at ihrest
    rw [flatten, flattenAll, ihfirst, ihrest]

mutual

theorem leaves_flatten : ∀ d : Data, d.Leaves d.flatten
  | .absent => .absent
  | .token t => .token t
  | .node n => .node n
  | .sequence items => leaves_flattenAll items

theorem leaves_flattenAll : ∀ items : List Data, (sequence items).Leaves (flattenAll items)
  | [] => .nil
  | item :: items => .cons (leaves_flatten item) (leaves_flattenAll items)

end

/-- **Every match-result has one sequence of leaves,** which is what flattening gives. -/
theorem leaves_iff {d : Data} {es : List Element} : d.Leaves es ↔ d.flatten = es := by
  refine ⟨Leaves.flatten_eq, ?_⟩
  rintro rfl
  exact d.leaves_flatten

end Data

/-! ### Shapes -/

/-- What a message expects in place of so many elements that have no shape. -/
def Shape.expected : Nat → String
  | 1 => "a built node"
  | 2 => "an operator token then an operand"
  | 3 => "an operand, an operator token, an operand"
  | _ => "at most three elements"

theorem Shape.ofElements_of_ne {es : List Element} (h : ∀ shape : Shape, es ≠ shape.elements) :
    Shape.ofElements es = .error (Element.unexpected (Shape.expected es.length) es) := by
  unfold ofElements
  split
  · exact absurd rfl (h .noOperand)
  · exact absurd rfl (h (.alreadyBuilt _))
  · exact absurd rfl (h (.unary _ _))
  · exact absurd rfl (h (.binary _ _ _))
  · rfl
  · rfl
  · rfl
  · rename_i hnil _ _ _ hone htwo hthree
    rcases es with - | ⟨a, - | ⟨b, - | ⟨c, - | ⟨d, more⟩⟩⟩⟩
    · exact absurd rfl hnil
    · exact absurd rfl (hone a)
    · exact absurd rfl (htwo a b)
    · exact absurd rfl (hthree a b c)
    · rfl

namespace Rule

/-! ### Outcomes -/

/-- What an operation gives for its leaves. -/
inductive OperationGives : List Element → Except NodeError Data → Prop where
  | nothing : OperationGives [] (.ok .absent)
  | operand (node : Node) : OperationGives [.node node] (.ok (.node node))
  | unary {sign : Token} {operand : Node} {start stop : Position} (starts : sign.StandsAt start)
      (stops : operand.span.stop = some stop) :
      OperationGives [.token sign, .node operand]
        (.ok (.node (.unaryOperator sign.value operand (.between start stop))))
  | binary {left right : Node} {sign : Token} {start stop : Position}
      (starts : left.span.start = some start) (stops : right.span.stop = some stop) :
      OperationGives [.node left, .token sign, .node right]
        (.ok (.node (.binaryOperator sign.value left right (.between start stop))))
  | noLine {sign : Token} {operand : Node} (line : sign.line = 0) :
      OperationGives [.token sign, .node operand] (.error (.badCoordinate .line "0"))
  | noColumn {sign : Token} {operand : Node} (line : 1 ≤ sign.line) (column : sign.column = 0) :
      OperationGives [.token sign, .node operand] (.error (.badCoordinate .column "0"))
  | noStop {sign : Token} {operand : Node} (line : 1 ≤ sign.line) (column : 1 ≤ sign.column)
      (stops : operand.span.stop = none) :
      OperationGives [.token sign, .node operand] (.error (.notPlaced "a fragment without an end"))
  | noStartLeft {left right : Node} {sign : Token} (starts : left.span.start = none) :
      OperationGives [.node left, .token sign, .node right]
        (.error (.notPlaced "a fragment without a start"))
  | noStopRight {left right : Node} {sign : Token} (starts : left.span.start ≠ none)
      (stops : right.span.stop = none) :
      OperationGives [.node left, .token sign, .node right]
        (.error (.notPlaced "a fragment without an end"))
  | noShape {es : List Element} (other : ∀ shape : Shape, es ≠ shape.elements) :
      OperationGives es (.error (Element.unexpected (Shape.expected es.length) es))

variable {data : Data} {es : List Element} {result : Except NodeError Data}

/-- An operation gives what is listed for its leaves. -/
theorem OperationGives.holds (h : OperationGives es result) (hdata : data.flatten = es) :
    buildOperation data = result := by
  cases h with
  | nothing =>
    rw [buildOperation, Shape.ofData, hdata]
    rfl
  | operand node => exact buildOperation_lone hdata
  | unary starts stops =>
    exact buildOperation_unary hdata starts.position (Node.placed_of_endpoint .stop stops)
  | binary starts stops =>
    exact buildOperation_binary hdata (Node.placed_of_endpoint .start starts)
      (Node.placed_of_endpoint .stop stops)
  | noLine line =>
    rw [buildOperation_before hdata, Token.position_of_line line]
    rfl
  | noColumn line column =>
    rw [buildOperation_before hdata, Token.position_of_column line column]
    rfl
  | noStop line column stops =>
    obtain ⟨start, hstart⟩ := Token.exists_standsAt line column
    rw [buildOperation_before hdata, hstart.position, Node.placed_of_none .stop stops]
    rfl
  | noStartLeft starts =>
    rw [buildOperation_between hdata, Node.placed_of_none .start starts]
    rfl
  | noStopRight starts stops =>
    obtain ⟨start, hstart⟩ := Option.ne_none_iff_exists'.mp starts
    rw [buildOperation_between hdata, Node.placed_of_endpoint .start hstart,
      Node.placed_of_none .stop stops]
    rfl
  | noShape other =>
    rw [buildOperation, Shape.ofData, hdata, Shape.ofElements_of_ne other]
    rfl

/-- For all leaves, an outcome is listed. -/
theorem exists_operationGives (es : List Element) : ∃ result, OperationGives es result := by
  by_cases hshape : ∃ shape : Shape, es = shape.elements
  · obtain ⟨shape, rfl⟩ := hshape
    cases shape with
    | noOperand => exact ⟨_, .nothing⟩
    | alreadyBuilt node => exact ⟨_, .operand node⟩
    | unary sign operand =>
      rcases Nat.eq_zero_or_pos sign.line with hline | hline
      · exact ⟨_, .noLine hline⟩
      rcases Nat.eq_zero_or_pos sign.column with hcolumn | hcolumn
      · exact ⟨_, .noColumn hline hcolumn⟩
      obtain ⟨start, hstart⟩ := Token.exists_standsAt hline hcolumn
      cases hstop : operand.span.stop with
      | none => exact ⟨_, .noStop hline hcolumn hstop⟩
      | some stop => exact ⟨_, .unary hstart hstop⟩
    | binary left sign right =>
      cases hstart : left.span.start with
      | none => exact ⟨_, .noStartLeft hstart⟩
      | some start =>
        cases hstop : right.span.stop with
        | none => exact ⟨_, .noStopRight (by simp [hstart]) hstop⟩
        | some stop => exact ⟨_, .binary hstart hstop⟩
  · exact ⟨_, .noShape fun shape hes => hshape ⟨shape, hes⟩⟩

end Rule

/-- **An operation is decided by its leaves.** It gives exactly what is listed for them: nothing
for no leaves, a lone node as it is, a node for an operator before or between operands that has
the endpoints it needs, and the error of the first thing that is wrong otherwise. So
match-results with the same leaves give the same, however they are grouped. -/
theorem buildOperation_gives {data : Data} {es : List Element} (h : data.Leaves es) :
    (∀ result, Rule.buildOperation data = result ↔ Rule.OperationGives es result) ∧
    ∀ other : Data, other.Leaves es → Rule.buildOperation other = Rule.buildOperation data := by
  have hdata := Data.leaves_iff.mp h
  obtain ⟨outcome, hlisted⟩ := Rule.exists_operationGives es
  have houtcome := hlisted.holds hdata
  refine ⟨fun result => ⟨?_, fun hresult => hresult.holds hdata⟩, fun other hother => ?_⟩
  · rintro rfl
    rwa [houtcome]
  · rw [houtcome, hlisted.holds (Data.leaves_iff.mp hother)]

/-- A sign deep inside sequences and between absent slots is still the sign before its operand,
of which only the end must be placed. -/
theorem buildOperation_gives_sample :
    let sign : Token := { value := "-", line := 1, column := 1, offset := 0 }
    let start : Position := { line := 1, column := 1, offset := 0 }
    let stop : Position := { line := 1, column := 3, offset := 2 }
    let name : Node := .identifier "a" { stop := some stop }
    let grouped : Data :=
      .sequence [.absent, .sequence [.sequence [.token sign], .absent], .node name]
    grouped.Leaves [.token sign, .node name] ∧
      Rule.buildOperation grouped =
        .ok (.node (.unaryOperator "-" name (.between start stop))) ∧
      Rule.buildOperation (.sequence [.token sign, .node name]) = Rule.buildOperation grouped := by
  intro sign start stop name grouped
  have hgrouped : grouped.Leaves [.token sign, .node name] := Data.leaves_iff.mpr rfl
  obtain ⟨hgives, hsame⟩ := buildOperation_gives hgrouped
  exact ⟨hgrouped, (hgives _).mpr (.unary ⟨by decide, rfl, rfl, rfl⟩ rfl),
    hsame _ (Data.leaves_iff.mpr rfl)⟩

end OpenScad
