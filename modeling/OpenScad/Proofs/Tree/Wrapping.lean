/-
# Wrappers around matches

The grammar puts many layers around what it recognises: groups of one part,
operations without an operator, statements around a statement, parentheses, and
absent slots beside any of these. None of them leaves a trace. A match that
reduces to a node reduces to that node inside all of them, with the same span,
and the error of one that does not reduce is the error of the whole
(`reduce_of_wraps`).

A group is no rule, so it keeps its grouping: with a group outermost, the node
is the only leaf of a sequence (`Wraps.reduces`).

Key definitions: `Match.Padded`, `Match.Wraps`.
Key theorems: `Match.Wraps.reduces`, `Match.Wraps.reduce_error`, `reduce_of_wraps`.
-/
import OpenScad.Proofs.Tree.Construction

namespace OpenScad
namespace Match

/-! ### Layers -/

/-- The parts are the given ones, with absent slots among them. -/
inductive Padded : List Match → List Match → Prop where
  | nil : Padded [] []
  | absent {core parts : List Match} (rest : Padded core parts) : Padded core (.absent :: parts)
  | part {m : Match} {core parts : List Match} (rest : Padded core parts) :
      Padded (m :: core) (m :: parts)

/-- The match stands inside layers that leave no trace. -/
inductive Wraps (m : Match) : Match → Prop where
  | bare : Wraps m m
  | group {w : Match} {parts : List Match} (inner : Wraps m w) (padded : Padded [w] parts) :
      Wraps m (.group parts)
  | operation {w : Match} {parts : List Match} (inner : Wraps m w) (padded : Padded [w] parts) :
      Wraps m (.rule .operation parts)
  | statement {w : Match} {parts : List Match} (inner : Wraps m w) (padded : Padded [w] parts) :
      Wraps m (.rule .statement parts)
  | parenthesized {w : Match} {parts : List Match} {opening closing : Token}
      (opens : opening.value = "(") (closes : closing.value = ")") (inner : Wraps m w)
      (padded : Padded [.token opening, w, .token closing] parts) :
      Wraps m (.rule .parenthesized parts)

/-! ### Absent slots -/

section Padding

variable {arith : Arithmetic} {core parts : List Match} {elements : List Element} {e : NodeError}

/-- Absent slots add no elements. -/
theorem Padded.reduceAll (h : Padded core parts) (hcore : ReduceAll arith core elements) :
    ReduceAll arith parts elements := by
  induction h generalizing elements with
  | nil => exact hcore
  | absent rest ih => exact reduces_absent.cons (ih hcore)
  | part rest ih =>
    obtain ⟨first, later, hfirst, hlater, rfl⟩ := hcore.exists_cons
    exact hfirst.cons (ih hlater)

theorem reduceAll_cons_error {m : Match} {ms : List Match} (h : m.reduce arith = .error e) :
    reduceAll arith (m :: ms) = .error e := by
  rw [Match.reduceAll, h]
  rfl

/-- Absent slots keep the first error. -/
theorem Padded.reduceAll_error (h : Padded core parts)
    (hcore : Match.reduceAll arith core = .error e) : Match.reduceAll arith parts = .error e := by
  induction h with
  | nil => exact hcore
  | absent rest ih =>
    rw [Match.reduceAll, reduce, ih hcore]
    rfl
  | @part m core parts rest ih =>
    rw [Match.reduceAll] at hcore ⊢
    cases hm : m.reduce arith with
    | error e' =>
      rw [hm] at hcore
      exact hcore
    | ok data =>
      rw [hm] at hcore
      have hlater : Match.reduceAll arith core = .error e := by
        cases hlater : Match.reduceAll arith core with
        | error e' =>
          rw [hlater] at hcore
          exact hcore
        | ok items =>
          rw [hlater] at hcore
          cases hcore
      rw [ih hlater]
      rfl

theorem group_error (h : Match.reduceAll arith parts = .error e) :
    (Match.group parts).reduce arith = .error e := by
  rw [reduce, h]
  rfl

theorem rule_error {r : Rule} (h : Match.reduceAll arith parts = .error e) :
    (Match.rule r parts).reduce arith = .error e := by
  rw [reduce, h]
  rfl

end Padding

/-! ### All layers -/

variable {arith : Arithmetic} {m w : Match} {node : Node} {e : NodeError}

theorem Reduces.lone {elements : List Element} (h : m.Reduces arith elements) :
    ReduceAll arith [m] elements := by
  have hlone := h.cons reduceAll_nil
  rwa [List.append_nil] at hlone

/-- Between parentheses, the elements stand between the two tokens. -/
theorem Reduces.between {opening closing : Token} (h : m.Reduces arith [.node node]) :
    ReduceAll arith [.token opening, m, .token closing]
      [.token opening, .node node, .token closing] :=
  (reduces_token opening).cons (h.cons (reduces_token closing).lone)

/-- A rule that gives a node has it as its only leaf. -/
theorem reduces_of_rule {r : Rule} {parts : List Match}
    (h : (Match.rule r parts).reduce arith = .ok (.node node)) :
    (Match.rule r parts).Reduces arith [.node node] ∧
      ∀ r' parts', Match.rule r parts = .rule r' parts' →
        (Match.rule r parts).reduce arith = .ok (.node node) :=
  ⟨⟨.node node, h, rfl⟩, fun _ _ _ => h⟩

/-- **A node inside layers is the only leaf,** whatever is outermost; a rule outermost gives the
node as it is. -/
theorem Wraps.reduces (h : m.Wraps w) (hm : m.reduce arith = .ok (.node node)) :
    w.Reduces arith [.node node] ∧
      ∀ r parts, w = .rule r parts → w.reduce arith = .ok (.node node) := by
  induction h with
  | bare => exact ⟨⟨.node node, hm, rfl⟩, fun _ _ _ => hm⟩
  | group inner padded ih => exact ⟨(padded.reduceAll ih.1.lone).group, fun _ _ h => nomatch h⟩
  | operation inner padded ih =>
    exact reduces_of_rule ((padded.reduceAll ih.1.lone).reduce_rule fun _ hd =>
      Rule.buildOperation_lone hd)
  | statement inner padded ih =>
    exact reduces_of_rule ((padded.reduceAll ih.1.lone).reduce_rule fun _ hd =>
      Rule.buildStatement_eq hd)
  | parenthesized opens closes inner padded ih =>
    exact reduces_of_rule ((padded.reduceAll ih.1.between).reduce_rule fun _ hd =>
      Rule.buildParenthesized_eq hd opens closes)

/-- **An error inside layers is the error of the whole,** whatever is outermost. -/
theorem Wraps.reduce_error (h : m.Wraps w) (hm : m.reduce arith = .error e) :
    w.reduce arith = .error e := by
  induction h with
  | bare => exact hm
  | group inner padded ih => exact group_error (padded.reduceAll_error (reduceAll_cons_error ih))
  | operation inner padded ih =>
    exact rule_error (padded.reduceAll_error (reduceAll_cons_error ih))
  | statement inner padded ih =>
    exact rule_error (padded.reduceAll_error (reduceAll_cons_error ih))
  | @parenthesized w parts opening closing opens closes inner padded ih =>
    have hcore : Match.reduceAll arith [.token opening, w, .token closing] = .error e := by
      rw [Match.reduceAll, reduce, reduceAll_cons_error ih]
      rfl
    exact rule_error (padded.reduceAll_error hcore)

end Match

/-- **Layers leave no trace.** Any number of groups, operations without an operator, statements,
parentheses and absent slots around a match, in any order and with a rule outermost, reduce to
what the match itself reduces to: the very same node, or the same error. -/
theorem reduce_of_wraps (arith : Arithmetic) {m : Match} {r : Rule} {parts : List Match}
    (hm : (∃ node, m.reduce arith = .ok (.node node)) ∨ ∃ e, m.reduce arith = .error e)
    (hw : m.Wraps (.rule r parts)) : (Match.rule r parts).reduce arith = m.reduce arith := by
  rcases hm with ⟨node, hnode⟩ | ⟨e, herror⟩
  · rw [(hw.reduces hnode).2 r parts rfl, hnode]
  · rw [hw.reduce_error herror, herror]

/-- A name between parentheses, in a statement and beside absent slots, is the name with its own
span; a number without a token is refused inside the same layers as outside of them. -/
theorem reduce_of_wraps_sample :
    let layers (m : Match) : Match := .rule .statement [.absent, .group [.rule .parenthesized
      [.token { value := "(", line := 1, column := 1, offset := 0 },
        .rule .operation [.group [m, .absent]], .absent,
        .token { value := ")", line := 1, column := 3, offset := 2 }]]]
    let name : Match :=
      .rule .identifier [.token { value := "a", line := 1, column := 2, offset := 1 }]
    let empty : Match := .rule .number []
    (∃ node, name.reduce .checked = .ok (.node node) ∧
        (layers name).reduce .checked = .ok (.node node)) ∧
      ∃ e, empty.reduce .checked = .error e ∧ (layers empty).reduce .checked = .error e := by
  intro layers name empty
  have hlayers (m : Match) : m.Wraps (layers m) :=
    .statement (.group (.parenthesized rfl rfl (.operation (.group .bare (.part (.absent .nil)))
      (.part .nil)) (.part (.part (.absent (.part .nil))))) (.part .nil)) (.absent (.part .nil))
  have hname : ∃ node, name.reduce .checked = .ok (.node node) := ⟨_, rfl⟩
  have hempty : ∃ e, empty.reduce .checked = .error e := ⟨_, rfl⟩
  refine ⟨?_, ?_⟩
  · obtain ⟨node, hnode⟩ := hname
    exact ⟨node, hnode, (reduce_of_wraps .checked (.inl ⟨node, hnode⟩) (hlayers name)).trans hnode⟩
  · obtain ⟨e, he⟩ := hempty
    exact ⟨e, he, (reduce_of_wraps .checked (.inr ⟨e, he⟩) (hlayers empty)).trans he⟩

end OpenScad
