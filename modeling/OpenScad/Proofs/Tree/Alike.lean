/-
# Trees that are alike

Building a node looks at the values of tokens, at the kinds of nodes, and at
positions only to pass them on. So two trees that only differ in positions can
be followed side by side: what is read from a tree or a match-result is the
same on both sides, but for related positions, or the same error.

Every law is stated for two runs of one function on related arguments.

Key definitions: `OutcomesAlike`, `Node.Alike`, `Data.Alike`, `TokensRelate`.
Key theorems: `OutcomesAlike.bind`, `Node.Alike.place`, `Data.Alike.flatten`.
-/
import OpenScad.Proofs.Grammar.Alike
import OpenScad.Rule.Build

namespace OpenScad

/-! ### Outcomes side by side -/

section Outcomes

variable {α β γ δ : Type} {R : α → β → Prop} {S : γ → δ → Prop}

/-- Two outcomes: related values, or one error. -/
inductive OutcomesAlike (R : α → β → Prop) : Except NodeError α → Except NodeError β → Prop where
  | ok {a : α} {b : β} (value : R a b) : OutcomesAlike R (.ok a) (.ok b)
  | error (e : NodeError) : OutcomesAlike R (.error e) (.error e)

theorem OutcomesAlike.bind {x : Except NodeError α} {y : Except NodeError β}
    {f : α → Except NodeError γ} {g : β → Except NodeError δ} (h : OutcomesAlike R x y)
    (hf : ∀ a b, R a b → OutcomesAlike S (f a) (g b)) : OutcomesAlike S (x >>= f) (y >>= g) := by
  cases h with
  | ok value => exact hf _ _ value
  | error e => exact .error e

/-- What gives the same outcome on both sides, with values that are related to themselves. -/
theorem outcomesAlike_same {R : α → α → Prop} {x : Except NodeError α}
    (h : ∀ a, x = .ok a → R a a) : OutcomesAlike R x x := by
  cases hx : x with
  | ok a => exact .ok (h a hx)
  | error e => exact .error e

theorem OutcomesAlike.of_ok {x : Except NodeError α} {y : Except NodeError β} {a : α} {b : β}
    (h : OutcomesAlike R x y) (hx : x = .ok a) (hy : y = .ok b) : R a b := by
  cases h with
  | ok value =>
    cases hx
    cases hy
    exact value
  | error e => cases hx

end Outcomes

/-! ### Trees and match-results side by side -/

section Relations

variable (A : Token → Token → Prop) (P : Position → Position → Prop)

/-- Spans with related endpoints, where they have any. -/
structure Span.Alike (s t : Span) : Prop where
  start : Option.Rel P s.start t.start
  stop : Option.Rel P s.stop t.stop

/-- Trees of one shape with the same values and related positions. -/
inductive Node.Alike : Node → Node → Prop where
  | leaf {node : Node} {s t : Span} (children : node.children = []) (span : s.Alike P t) :
      Alike (node.withSpan s) (node.withSpan t)
  | assignment {a a' b b' : Node} {s t : Span} (name : Alike a a') (value : Alike b b')
      (span : s.Alike P t) : Alike (.assignment a b s) (.assignment a' b' t)
  | block {pairs : List (Node × Node)} {s t : Span} (statements : ∀ x ∈ pairs, Alike x.1 x.2)
      (span : s.Alike P t) : Alike (.block (pairs.map (·.1)) s) (.block (pairs.map (·.2)) t)
  | binaryOperator {operator : String} {a a' b b' : Node} {s t : Span} (left : Alike a a')
      (right : Alike b b') (span : s.Alike P t) :
      Alike (.binaryOperator operator a b s) (.binaryOperator operator a' b' t)
  | unaryOperator {operator : String} {a a' : Node} {s t : Span} (value : Alike a a')
      (span : s.Alike P t) : Alike (.unaryOperator operator a s) (.unaryOperator operator a' t)
  | usePath {a a' : Node} {s t : Span} (path : Alike a a') (span : s.Alike P t) :
      Alike (.usePath a s) (.usePath a' t)
  | includePath {a a' : Node} {s t : Span} (path : Alike a a') (span : s.Alike P t) :
      Alike (.includePath a s) (.includePath a' t)

/-- Elements of one sort that are related. -/
inductive Element.Alike : Element → Element → Prop where
  | token {t t' : Token} (token : A t t') : Alike (.token t) (.token t')
  | node {n n' : Node} (node : n.Alike P n') : Alike (.node n) (.node n')

/-- Match-results of one shape with related elements. -/
inductive Data.Alike : Data → Data → Prop where
  | absent : Alike .absent .absent
  | token {t t' : Token} (token : A t t') : Alike (.token t) (.token t')
  | node {n n' : Node} (node : n.Alike P n') : Alike (.node n) (.node n')
  | sequence {pairs : List (Data × Data)} (items : ∀ x ∈ pairs, Alike x.1 x.2) :
      Alike (.sequence (pairs.map (·.1))) (.sequence (pairs.map (·.2)))

/-- Tokens of a relation have the same values, and positions and ends that are related. The ends
may be those of two arithmetics. -/
structure TokensRelate (arith arith' : Arithmetic) : Prop where
  value : ∀ t t', A t t' → t.value = t'.value
  position : ∀ t t', A t t' → OutcomesAlike P t.position t'.position
  endPosition : ∀ t t', A t t' →
    OutcomesAlike P (t.endPosition arith) (t'.endPosition arith')

end Relations

section Building

variable {A : Token → Token → Prop} {P : Position → Position → Prop} {arith arith' : Arithmetic}

/-! ### Spans -/

namespace Span

theorem alike_empty : Alike P {} {} := ⟨.none, .none⟩

theorem alike_between {p p' q q' : Position} (hp : P p p') (hq : P q q') :
    (between p q).Alike P (between p' q') := ⟨.some hp, .some hq⟩

variable {s t : Span}

theorem Alike.placed (h : s.Alike P t) (endpoint : Endpoint) :
    OutcomesAlike P (s.placed endpoint) (t.placed endpoint) := by
  obtain ⟨start, stop⟩ := s
  obtain ⟨start', stop'⟩ := t
  obtain ⟨hstart, hstop⟩ := h
  cases endpoint with
  | start =>
    cases hstart with
    | none => exact .error _
    | some hp => exact .ok hp
  | stop =>
    cases hstop with
    | none => exact .error _
    | some hp => exact .ok hp

theorem Alike.place {p p' : Position} (h : s.Alike P t) (endpoint : Endpoint) (hp : P p p') :
    OutcomesAlike (Alike P) (s.place endpoint p) (t.place endpoint p') := by
  obtain ⟨start, stop⟩ := s
  obtain ⟨start', stop'⟩ := t
  obtain ⟨hstart, hstop⟩ := h
  cases endpoint with
  | start =>
    cases hstart with
    | none => exact .ok ⟨.some hp, hstop⟩
    | some _ => exact .error _
  | stop =>
    cases hstop with
    | none => exact .ok ⟨hstart, .some hp⟩
    | some _ => exact .error _

end Span

/-! ### Nodes -/

namespace Node

theorem alike_block {nodes nodes' : List Node} {s t : Span}
    (h : List.Forall₂ (Node.Alike P) nodes nodes') (span : s.Alike P t) :
    (Node.block nodes s).Alike P (.block nodes' t) := by
  obtain ⟨pairs, hpairs, rfl, rfl⟩ := exists_pairs h
  exact .block hpairs span

variable {n n' : Node}

theorem Alike.kind (h : n.Alike P n') : n.kind = n'.kind := by
  cases h with
  | leaf => rw [kind_withSpan, kind_withSpan]
  | assignment => rfl
  | block => rfl
  | binaryOperator => rfl
  | unaryOperator => rfl
  | usePath => rfl
  | includePath => rfl

theorem Alike.span (h : n.Alike P n') : n.span.Alike P n'.span := by
  cases h with
  | leaf _ span => rwa [span_withSpan, span_withSpan]
  | assignment _ _ span => exact span
  | block _ span => exact span
  | binaryOperator _ _ span => exact span
  | unaryOperator _ span => exact span
  | usePath _ span => exact span
  | includePath _ span => exact span

/-- Other related spans keep trees alike. -/
theorem Alike.withSpan {s t : Span} (h : n.Alike P n') (span : s.Alike P t) :
    (n.withSpan s).Alike P (n'.withSpan t) := by
  cases h with
  | leaf children _ =>
    rw [withSpan_withSpan, withSpan_withSpan]
    exact .leaf children span
  | assignment name value _ => exact .assignment name value span
  | block statements _ => exact .block statements span
  | binaryOperator left right _ => exact .binaryOperator left right span
  | unaryOperator value _ => exact .unaryOperator value span
  | usePath path _ => exact .usePath path span
  | includePath path _ => exact .includePath path span

theorem Alike.placed (h : n.Alike P n') (endpoint : Endpoint) :
    OutcomesAlike P (n.placed endpoint) (n'.placed endpoint) :=
  h.span.placed endpoint

theorem Alike.place {p p' : Position} (h : n.Alike P n') (endpoint : Endpoint) (hp : P p p') :
    OutcomesAlike (Node.Alike P) (n.place endpoint p) (n'.place endpoint p') :=
  (h.span.place endpoint hp).bind fun _ _ span => .ok (h.withSpan span)

theorem Alike.ofKind (h : n.Alike P n') (owner : NodeKind) (field : String) (wanted : NodeKind) :
    OutcomesAlike (Node.Alike P) (n.ofKind owner field wanted) (n'.ofKind owner field wanted) := by
  unfold Node.ofKind
  rw [h.kind]
  split
  · exact .ok h
  · exact .error _

/-- A node without children and endpoints is alike itself. -/
theorem alike_self (hchildren : n.children = []) (hspan : n.span = {}) : n.Alike P n := by
  have hself : n.withSpan {} = n := by
    rw [← hspan]
    cases n <;> rfl
  have := Alike.leaf (P := P) hchildren Span.alike_empty
  rwa [hself] at this

/-- The node of a terminal kind has no children, and no endpoints before they are placed. -/
theorem bare_of_ofFields {kind : NodeKind} {f : Field} {node : Node} (hk : kind.isTerminal = true)
    (h : ofFields kind { entries := [("value", f)] } = .ok node) :
    node.children = [] ∧ node.span = {} := by
  -- what a kind declares is made of one value, and nothing is left in the bag
  have made {α : Type} (x : Except NodeError α) (make : α → Node)
      (hdeclared : ofDeclared kind { entries := [("value", f)] } =
        x >>= fun a => .ok (make a, Fields.empty))
      (hmake : ∀ a, (make a).children = []) : node.children = [] ∧ node.span = {} := by
    change (ofDeclared kind { entries := [("value", f)] } >>= _) = _ at h
    rw [hdeclared] at h
    cases x with
    | error e => cases h
    | ok a =>
      have hnode : (make a).withSpan {} = node := Except.ok.inj h
      rw [← hnode, children_withSpan, span_withSpan]
      exact ⟨hmake a, rfl⟩
  cases kind with
  | number => exact made (.ok f.toNumber) (number · {}) rfl fun _ => rfl
  | string => exact made (.ok f.toText) (string · {}) rfl fun _ => rfl
  | path => exact made (.ok f.toText) (path · {}) rfl fun _ => rfl
  | identifier => exact made (.ok f.toText) (identifier · {}) rfl fun _ => rfl
  | undefined => exact made (.ok ()) (fun _ => undefined {}) rfl fun _ => rfl
  | boolean => exact made f.toBoolean (boolean · {}) rfl fun _ => rfl
  | lineComment => exact made (f.asComment .lineComment false) (lineComment · {}) rfl fun _ => rfl
  | blockComment =>
    exact made (f.asComment .blockComment true) (blockComment · {}) rfl fun _ => rfl
  | _ => cases hk

end Node

/-! ### Elements and match-results -/

/-- Elements that are related, one by one. -/
abbrev ElementsAlike (A : Token → Token → Prop) (P : Position → Position → Prop) :
    List Element → List Element → Prop :=
  List.Forall₂ (Element.Alike A P)

theorem Element.Alike.toData {e e' : Element} (h : e.Alike A P e') :
    e.toData.Alike A P e'.toData := by
  cases h with
  | token token => exact .token token
  | node node => exact .node node

section Elements

variable (hA : TokensRelate A P arith arith') {e e' : Element} {es es' : List Element}

include hA

theorem Element.Alike.describe (h : e.Alike A P e') : e.describe = e'.describe := by
  cases h with
  | token token => simp only [Element.describe, Token.described, hA.value _ _ token]
  | node node => simp only [Element.describe, node.kind]

theorem Element.Alike.isToken (h : e.Alike A P e') (value : String) :
    e.isToken value = e'.isToken value := by
  cases h with
  | token token => simp only [Element.isToken, hA.value _ _ token]
  | node => rfl

/-- Elements of the same descriptions have the same error. -/
theorem ElementsAlike.unexpected (h : ElementsAlike A P es es') (expected : String) :
    Element.unexpected expected es = Element.unexpected expected es' := by
  have hsame : es.map Element.describe = es'.map Element.describe := by
    induction h with
    | nil => rfl
    | cons first _ ih => rw [List.map_cons, List.map_cons, first.describe hA, ih]
  rw [Element.unexpected, Element.unexpected, hsame]

end Elements

namespace Data

variable (hA : TokensRelate A P arith arith') {d d' : Data}

theorem alike_sequence {ds ds' : List Data} (h : List.Forall₂ (Data.Alike A P) ds ds') :
    (sequence ds).Alike A P (sequence ds') := by
  obtain ⟨pairs, hpairs, rfl, rfl⟩ := exists_pairs h
  exact .sequence hpairs

theorem alike_ofElements {es es' : List Element} (h : ElementsAlike A P es es') :
    (ofElements es).Alike A P (ofElements es') := by
  refine alike_sequence ?_
  induction h with
  | nil => exact .nil
  | cons first _ ih => exact .cons first.toData ih

theorem Alike.flatten (h : d.Alike A P d') : ElementsAlike A P d.flatten d'.flatten := by
  induction h with
  | absent => exact .nil
  | token token => exact .cons (.token token) .nil
  | node node => exact .cons (.node node) .nil
  | @sequence pairs items ih =>
    rw [Data.flatten, Data.flatten]
    induction pairs with
    | nil => exact .nil
    | cons x pairs ihs =>
      rw [List.map_cons, List.map_cons, flattenAll, flattenAll]
      exact List.rel_append (ih x List.mem_cons_self)
        (ihs (fun y hy => items y (List.mem_cons_of_mem x hy))
          fun y hy => ih y (List.mem_cons_of_mem x hy))

include hA in
theorem Alike.describe (h : d.Alike A P d') : d.describe = d'.describe := by
  cases h with
  | absent => rfl
  | token token => simp only [Data.describe, Token.described, hA.value _ _ token]
  | node node => simp only [Data.describe, node.kind]
  | sequence => simp only [Data.describe, List.length_map]

theorem Alike.forward (h : d.Alike A P d') :
    OutcomesAlike (Data.Alike A P) d.forward d'.forward := by
  cases h with
  | absent => exact .ok .absent
  | token token => exact .ok (.token token)
  | node node => exact .ok (.node node)
  | @sequence pairs items =>
    rcases pairs with - | ⟨x, - | ⟨y, more⟩⟩
    · exact .ok .absent
    · exact .ok (items x List.mem_cons_self)
    · simp only [List.map_cons, Data.forward, List.length_cons, List.length_map]
      exact .error _

include hA in
theorem Alike.intoNode (h : d.Alike A P d') :
    OutcomesAlike (Node.Alike P) d.intoNode d'.intoNode := by
  have hdescribe := h.describe hA
  cases h with
  | node node => exact .ok node
  | absent => exact .error _
  | token =>
    simp only [Data.intoNode, hdescribe]
    exact .error _
  | sequence =>
    simp only [Data.intoNode, hdescribe]
    exact .error _

include hA in
theorem Alike.intoToken (h : d.Alike A P d') : OutcomesAlike A d.intoToken d'.intoToken := by
  have hdescribe := h.describe hA
  cases h with
  | token token => exact .ok token
  | absent => exact .error _
  | node =>
    simp only [Data.intoToken, hdescribe]
    exact .error _
  | sequence =>
    simp only [Data.intoToken, hdescribe]
    exact .error _

end Data

end Building
end OpenScad
