/-
# What rules make of elements

Every rule that is not terminal looks at the elements of a match-result, its
tokens and nodes in order, and not at their grouping. So there is one law for
each rule, stated for any match-result with given elements: which node it gives
and over which span.

Key theorems: `Rule.buildOperation_binary`, `Rule.buildParenthesized_eq`,
`Rule.buildAssignment_eq`, `Rule.buildPathStatement_eq`, `Rule.buildBlock_eq`,
`Rule.buildProgram_eq`.
-/
import OpenScad.Rule.Build

namespace OpenScad
namespace Rule

variable {data : Data} {node left right : Node} {start stop : Position}

theorem buildOperation_lone (h : data.flatten = [.node node]) :
    buildOperation data = .ok (.node node) := by
  rw [buildOperation, Shape.ofData, h]
  rfl

/-- Before its operand, an operator is asked for the start and the operand for the end. -/
theorem buildOperation_before {sign : Token} (h : data.flatten = [.token sign, .node node]) :
    buildOperation data = (do
      let start ← sign.position
      let stop ← node.placed .stop
      return .node (.unaryOperator sign.value node (.between start stop))) := by
  rw [buildOperation, Shape.ofData, h]
  rfl

/-- With an operator between them, the operands are asked for the start and the end. -/
theorem buildOperation_between {sign : Token}
    (h : data.flatten = [.node left, .token sign, .node right]) :
    buildOperation data = (do
      let start ← left.placed .start
      let stop ← right.placed .stop
      return .node (.binaryOperator sign.value left right (.between start stop))) := by
  rw [buildOperation, Shape.ofData, h]
  rfl

theorem buildOperation_unary {sign : Token} (h : data.flatten = [.token sign, .node node])
    (hstart : sign.position = .ok start) (hstop : node.placed .stop = .ok stop) :
    buildOperation data =
      .ok (.node (.unaryOperator sign.value node (.between start stop))) := by
  rw [buildOperation_before h, hstart, hstop]
  rfl

theorem buildOperation_binary {sign : Token}
    (h : data.flatten = [.node left, .token sign, .node right])
    (hstart : left.placed .start = .ok start) (hstop : right.placed .stop = .ok stop) :
    buildOperation data =
      .ok (.node (.binaryOperator sign.value left right (.between start stop))) := by
  rw [buildOperation_between h, hstart, hstop]
  rfl

theorem buildParenthesized_eq {opening closing : Token}
    (h : data.flatten = [.token opening, .node node, .token closing])
    (hopening : opening.value = "(") (hclosing : closing.value = ")") :
    buildParenthesized data = .ok (.node node) := by
  rw [buildParenthesized, h]
  simp [Element.isToken, hopening, hclosing, Data.ofElements, Element.toData, Data.forward,
    Data.intoNode]

theorem buildStatement_eq (h : data.flatten = [.node node]) :
    buildStatement data = .ok (.node node) := by
  rw [buildStatement, h]
  rfl

theorem withoutSemicolon_append {elements : List Element} {semicolon : Option Token}
    (hlast : ∀ e ∈ elements.getLast?, e.isToken ";" = false)
    (h : ∀ s ∈ semicolon, s.value = ";") :
    withoutSemicolon (elements ++ semicolon.toList.map .token) = elements := by
  cases semicolon with
  | some s =>
    have hs : s.value = ";" := h s rfl
    simp [withoutSemicolon, Element.isToken, hs]
  | none =>
    have hnil : elements ++ (none : Option Token).toList.map Element.token = elements := by simp
    rw [hnil, withoutSemicolon]
    split
    · rename_i last hget
      rw [if_neg (by simp [hlast last hget])]
    · rfl

theorem buildAssignment_eq {equals : Token} {semicolon : Option Token}
    (h : data.flatten =
      [.node left, .token equals, .node right] ++ semicolon.toList.map .token)
    (hequals : equals.value = "=") (hsemicolon : ∀ s ∈ semicolon, s.value = ";")
    (hname : left.kind = .identifier) (hstart : left.placed .start = .ok start)
    (hstop : right.placed .stop = .ok stop) :
    buildAssignment data = .ok (.node (.assignment left right (.between start stop))) := by
  have hwithout : withoutSemicolon data.flatten = [.node left, .token equals, .node right] := by
    rw [h]
    exact withoutSemicolon_append (by simp [Element.isToken]) hsemicolon
  rw [buildAssignment, hwithout]
  simp [hequals, hstart, hstop, Node.assign, Node.ofKind, hname, Node.withSpan]

theorem buildPathStatement_eq {keyword : String} {make : Node → Except NodeError Node}
    {word : Token} {semicolon : Option Token}
    (h : data.flatten = [.token word, .node node] ++ semicolon.toList.map .token)
    (hword : word.value = keyword) (hsemicolon : ∀ s ∈ semicolon, s.value = ";")
    (hmake : make node = .ok left) (hstart : word.position = .ok start)
    (hstop : node.placed .stop = .ok stop) :
    buildPathStatement keyword make data = .ok (.node (left.withSpan (.between start stop))) := by
  have hwithout : withoutSemicolon data.flatten = [.token word, .node node] := by
    rw [h]
    exact withoutSemicolon_append (by simp [Element.isToken]) hsemicolon
  rw [buildPathStatement, hwithout]
  simp [hword, hstart, hstop, hmake]

theorem onlyNodes_map : ∀ nodes : List Node, onlyNodes (nodes.map .node) = .ok nodes
  | [] => rfl
  | node :: nodes => by
    simp [onlyNodes, onlyNodes_map nodes]

theorem splitClosing_append {elements : List Element} {closing : Token}
    (h : closing.value = "\x7d") :
    splitClosing (elements ++ [.token closing]) = .ok (elements, closing) := by
  simp [splitClosing, h]

theorem splitOpening_cons {elements : List Element} {opening : Token}
    (h : opening.value = "\x7b") :
    splitOpening (.token opening :: elements) = .ok (opening, elements) := by
  simp [splitOpening, h]

theorem buildBlock_eq {arith : Arithmetic} {opening closing : Token} {nodes : List Node}
    (h : data.flatten = .token opening :: (nodes.map .node ++ [.token closing]))
    (hopening : opening.value = "\x7b") (hclosing : closing.value = "\x7d")
    (hstart : opening.position = .ok start) (hstop : closing.endPosition arith = .ok stop) :
    buildBlock arith data = .ok (.node (.block nodes (.between start stop))) := by
  rw [buildBlock, h, ← List.cons_append, splitClosing_append hclosing]
  simp only [ok_bind, pure_eq_ok, splitOpening_cons hopening, onlyNodes_map,
    hstart, hstop]

theorem buildProgram_eq {nodes : List Node} {span : Span} (h : data.flatten = nodes.map .node)
    (hspan : spanOf nodes = .ok span) : buildProgram data = .ok (.node (.block nodes span)) := by
  rw [buildProgram, h, onlyNodes_map]
  simp [hspan]

end Rule
end OpenScad
