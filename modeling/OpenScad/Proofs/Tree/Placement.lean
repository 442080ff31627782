/-
# Endpoints of reduced trees

Whatever is reduced, a match of the grammar or any other, no part of the outcome
is placed by half. Every node, at any depth, has both endpoints, and each is
where a token of the match starts or ends; the one exception is a block without
statements, which may have neither (`placed_of_reduce`).

A rule places its node by its own tokens and by endpoints that it asks of other
nodes, and it fails if they have none. So the elements of a match-result keep
the invariant that a rule needs to go on: tokens are tokens of the match, and
all nodes of a tree are anchored in them. Unplaced blocks come from programs
without statements; they can end up inside other trees, but no endpoint is ever
taken from them.

Key definitions: `Position.IsOf`, `Node.Anchored`, `Element.Anchored`.
Key theorems: `Rule.build_anchored`, `placed_of_reduce`.
-/
import OpenScad.Proofs.Tree.Alike
import OpenScad.Proofs.Tree.Inversion
import OpenScad.Proofs.Tree.Leaf
import OpenScad.Proofs.Tree.Spans

namespace OpenScad

/-- One of the tokens starts or ends at the position. -/
def Position.IsOf (arith : Arithmetic) (ts : List Token) (p : Position) : Prop :=
  ∃ t ∈ ts, t.position = .ok p ∨ t.endPosition arith = .ok p

namespace Node

/-- The node goes from a position of one of the tokens to another one, or it is a block without
statements and endpoints. -/
def Anchored (arith : Arithmetic) (ts : List Token) (node : Node) : Prop :=
  node = .block [] {} ∨
    ∃ start stop, node.span = .between start stop ∧ start.IsOf arith ts ∧ stop.IsOf arith ts

/-- All nodes of a tree are anchored in the tokens. -/
def AllAnchored (arith : Arithmetic) (ts : List Token) (tree : Node) : Prop :=
  ∀ node, Occurs node tree → node.Anchored arith ts

end Node

/-- The element is one of the tokens, or all nodes of its tree are anchored in them. -/
def Element.Anchored (arith : Arithmetic) (ts : List Token) : Element → Prop
  | .token t => t ∈ ts
  | .node n => n.AllAnchored arith ts

/-! ### More tokens -/

section Anchors

variable {arith : Arithmetic} {ts us : List Token} {start stop : Position}

theorem Position.IsOf.mono {p : Position} (h : p.IsOf arith ts) (hts : ts ⊆ us) :
    p.IsOf arith us := by
  obtain ⟨t, ht, hp⟩ := h
  exact ⟨t, hts ht, hp⟩

theorem Node.Anchored.mono {node : Node} (h : node.Anchored arith ts) (hts : ts ⊆ us) :
    node.Anchored arith us := by
  rcases h with hempty | ⟨start, stop, hspan, hstart, hstop⟩
  · exact .inl hempty
  · exact .inr ⟨start, stop, hspan, hstart.mono hts, hstop.mono hts⟩

theorem Element.Anchored.mono {e : Element} (h : e.Anchored arith ts) (hts : ts ⊆ us) :
    e.Anchored arith us := by
  cases e with
  | token t => exact hts h
  | node n => exact fun node hnode => (h node hnode).mono hts

/-! ### Trees from anchored parts -/

/-- A node over anchored children is anchored with them if its own endpoints are. -/
theorem Node.allAnchored_of_span {node : Node} (hspan : node.span = .between start stop)
    (hstart : start.IsOf arith ts) (hstop : stop.IsOf arith ts)
    (hchildren : ∀ child ∈ node.children, child.AllAnchored arith ts) :
    node.AllAnchored arith ts := by
  intro inner hinner
  cases hinner with
  | root => exact .inr ⟨start, stop, hspan, hstart, hstop⟩
  | inside child_mem occurs => exact hchildren _ child_mem inner occurs

theorem Node.allAnchored_empty : (Node.block [] {}).AllAnchored arith ts := by
  intro inner hinner
  cases hinner with
  | root => exact .inl rfl
  | inside child_mem => cases child_mem

/-- An endpoint that an anchored node has is the position of a token. -/
theorem Node.Anchored.isOf_endpoint {node : Node} {endpoint : Endpoint} {p : Position}
    (h : node.Anchored arith ts) (hp : node.span.endpoint endpoint = some p) : p.IsOf arith ts := by
  rcases h with rfl | ⟨start, stop, hspan, hstart, hstop⟩
  · cases endpoint <;> cases hp
  · rw [hspan] at hp
    cases endpoint with
    | start =>
      cases hp
      exact hstart
    | stop =>
      cases hp
      exact hstop

theorem Node.AllAnchored.isOf_of_placed {node : Node} {endpoint : Endpoint} {p : Position}
    (h : node.AllAnchored arith ts) (hp : node.placed endpoint = .ok p) : p.IsOf arith ts :=
  (h node .root).isOf_endpoint (Node.endpoint_of_placed hp)

theorem Token.isOf_position {t : Token} (ht : t ∈ ts) (h : t.position = .ok start) :
    start.IsOf arith ts :=
  ⟨t, ht, .inl h⟩

theorem Token.isOf_endPosition {t : Token} (ht : t ∈ ts) (h : t.endPosition arith = .ok stop) :
    stop.IsOf arith ts :=
  ⟨t, ht, .inr h⟩

/-- The node of a token has no children and is placed where the token is. -/
theorem Node.anchored_of_ofToken {kind : NodeKind} {t : Token} {value : Field} {node : Node}
    (h : Node.ofToken arith kind t value = .ok node) (ht : t ∈ ts) : node.AllAnchored arith ts := by
  unfold Node.ofToken at h
  split at h
  · rename_i hterminal
    obtain ⟨start, hstart, h⟩ := exists_of_bind_eq_ok h
    obtain ⟨stop, hstop, h⟩ := exists_of_bind_eq_ok h
    obtain ⟨bare, hbare, h⟩ := exists_of_bind_eq_ok h
    obtain ⟨hchildren, hspan⟩ := Node.bare_of_ofFields hterminal hbare
    have hplaced : (bare.place .start start >>= fun n => n.place .stop stop) =
        .ok (bare.withSpan (.between start stop)) := by
      simp [Node.place, hspan, Span.place, Span.endpoint, span_withSpan, withSpan_withSpan,
        Span.between]
    rw [hplaced] at h
    cases h
    refine Node.allAnchored_of_span (span_withSpan bare _) (Token.isOf_position ht hstart)
      (Token.isOf_endPosition ht hstop) ?_
    rw [children_withSpan, hchildren]
    exact List.forall_mem_nil _
  · cases h

end Anchors

/-! ### Rules -/

namespace Rule

variable {arith : Arithmetic} {ts : List Token} {data built : Data} {node : Node}

theorem anchored_lone (h : node.AllAnchored arith ts) :
    ∀ e ∈ (Data.node node).flatten, e.Anchored arith ts := by
  intro e he
  rw [Data.flatten, List.mem_singleton] at he
  subst he
  exact h

theorem spanOf_anchored {nodes : List Node} {span : Span} (h : spanOf nodes = .ok span)
    (hnodes : ∀ n ∈ nodes, n.AllAnchored arith ts) :
    (Node.block nodes span).AllAnchored arith ts := by
  unfold spanOf at h
  split at h
  · rename_i first last hfirst hlast
    obtain ⟨start, hstart, h⟩ := exists_of_bind_eq_ok h
    obtain ⟨stop, hstop, h⟩ := exists_of_bind_eq_ok h
    cases h
    have hfirst := hnodes first (List.mem_of_mem_head? hfirst)
    have hlast := hnodes last (List.mem_of_mem_getLast? hlast)
    exact Node.allAnchored_of_span rfl (hfirst.isOf_of_placed hstart)
      (hlast.isOf_of_placed hstop) hnodes
  · rename_i hends
    cases h
    cases nodes with
    | nil => exact Node.allAnchored_empty
    | cons first rest => exact absurd List.getLast?_cons (hends first _ rfl)

variable (h : ∀ e ∈ data.flatten, e.Anchored arith ts)

include h

theorem buildTerminal_anchored {kind : NodeKind} {value : String → Field}
    (hb : buildTerminal arith kind value data = .ok built) :
    ∀ e ∈ built.flatten, e.Anchored arith ts := by
  obtain ⟨token, node, hdata, hnode, rfl⟩ := token_of_buildTerminal hb
  have htoken : token ∈ ts := h (.token token) (by simp [hdata])
  exact anchored_lone (Node.anchored_of_ofToken hnode htoken)

theorem buildOperation_anchored (hb : buildOperation data = .ok built) :
    ∀ e ∈ built.flatten, e.Anchored arith ts := by
  obtain ⟨shape, hdata, hshape⟩ := shape_of_buildOperation hb
  rw [hdata] at h
  cases shape with
  | noOperand =>
    obtain rfl := hshape
    exact fun e he => nomatch he
  | alreadyBuilt node =>
    obtain rfl := hshape
    exact h
  | unary operator operand =>
    obtain ⟨start, stop, hstart, hstop, rfl⟩ := hshape
    have hoperator : operator ∈ ts := h (.token operator) (by simp [Shape.elements])
    have hoperand : operand.AllAnchored arith ts := h (.node operand) (by simp [Shape.elements])
    refine anchored_lone (Node.allAnchored_of_span rfl (Token.isOf_position hoperator hstart)
      (hoperand.isOf_of_placed hstop) ?_)
    simpa using hoperand
  | binary left operator right =>
    obtain ⟨start, stop, hstart, hstop, rfl⟩ := hshape
    have hleft : left.AllAnchored arith ts := h (.node left) (by simp [Shape.elements])
    have hright : right.AllAnchored arith ts := h (.node right) (by simp [Shape.elements])
    refine anchored_lone (Node.allAnchored_of_span rfl (hleft.isOf_of_placed hstart)
      (hright.isOf_of_placed hstop) ?_)
    simpa using ⟨hleft, hright⟩

theorem buildParenthesized_anchored (hb : buildParenthesized data = .ok built) :
    ∀ e ∈ built.flatten, e.Anchored arith ts := by
  obtain ⟨node, hinner, rfl⟩ := node_of_buildParenthesized hb
  have hmem : Element.node node ∈ data.flatten :=
    (List.mem_filter.mp (hinner ▸ List.mem_singleton_self (Element.node node))).1
  exact anchored_lone (h (.node node) hmem)

theorem buildAssignment_anchored (hb : buildAssignment data = .ok built) :
    ∀ e ∈ built.flatten, e.Anchored arith ts := by
  obtain ⟨name, equals, value, start, stop, hdata, -, -, hstart, hstop, rfl⟩ :=
    elements_of_buildAssignment hb
  have hes := fun e he => h e (withoutSemicolon_subset data.flatten he)
  rw [hdata] at hes
  have hname : name.AllAnchored arith ts := hes (.node name) (by simp)
  have hvalue : value.AllAnchored arith ts := hes (.node value) (by simp)
  refine anchored_lone (Node.allAnchored_of_span rfl (hname.isOf_of_placed hstart)
    (hvalue.isOf_of_placed hstop) ?_)
  simpa using ⟨hname, hvalue⟩

theorem buildPathStatement_anchored {keyword : String} {make : Node → Except NodeError Node}
    (hmake : ∀ file node, make file = .ok node → node.children = [file])
    (hb : buildPathStatement keyword make data = .ok built) :
    ∀ e ∈ built.flatten, e.Anchored arith ts := by
  obtain ⟨word, file, node, start, stop, hdata, -, hnode, hstart, hstop, rfl⟩ :=
    elements_of_buildPathStatement hb
  have hes := fun e he => h e (withoutSemicolon_subset data.flatten he)
  rw [hdata] at hes
  have hword : word ∈ ts := hes (.token word) (by simp)
  have hfile : file.AllAnchored arith ts := hes (.node file) (by simp)
  refine anchored_lone (Node.allAnchored_of_span (Node.span_withSpan node _)
    (Token.isOf_position hword hstart) (hfile.isOf_of_placed hstop) ?_)
  rw [Node.children_withSpan, hmake file node hnode]
  simpa using hfile

theorem buildBlock_anchored (hb : buildBlock arith data = .ok built) :
    ∀ e ∈ built.flatten, e.Anchored arith ts := by
  obtain ⟨opening, closing, nodes, start, stop, hdata, -, -, hstart, hstop, rfl⟩ :=
    elements_of_buildBlock hb
  rw [hdata] at h
  have hopening : opening ∈ ts := h (.token opening) (by simp)
  have hclosing : closing ∈ ts := h (.token closing) (by simp)
  have hnodes : ∀ n ∈ nodes, n.AllAnchored arith ts := fun n hn => h (.node n) (by simp [hn])
  exact anchored_lone (Node.allAnchored_of_span rfl (Token.isOf_position hopening hstart)
    (Token.isOf_endPosition hclosing hstop) hnodes)

theorem buildProgram_anchored (hb : buildProgram data = .ok built) :
    ∀ e ∈ built.flatten, e.Anchored arith ts := by
  obtain ⟨nodes, span, hdata, hspan, rfl⟩ := elements_of_buildProgram hb
  rw [hdata] at h
  have hnodes : ∀ n ∈ nodes, n.AllAnchored arith ts := fun n hn => h (.node n) (by simp [hn])
  exact anchored_lone (spanOf_anchored hspan hnodes)

/-- **No rule gives a node that is not anchored**, if it is given anchored elements. -/
theorem build_anchored (r : Rule) (hb : r.build arith data = .ok built) :
    ∀ e ∈ built.flatten, e.Anchored arith ts := by
  cases r <;> rw [build] at hb
  case program => exact buildProgram_anchored h hb
  case statement => exact flatten_of_buildStatement hb ▸ h
  case block => exact buildBlock_anchored h hb
  case assignment => exact buildAssignment_anchored h hb
  case usePath =>
    refine buildPathStatement_anchored h (fun file node hnode => ?_) hb
    rw [(kind_of_use hnode).2, Node.children]
  case includePath =>
    refine buildPathStatement_anchored h (fun file node hnode => ?_) hb
    rw [(kind_of_inclusion hnode).2, Node.children]
  case operation => exact buildOperation_anchored h hb
  case parenthesized => exact buildParenthesized_anchored h hb
  -- what is left are the rules of single tokens
  all_goals exact buildTerminal_anchored h hb

end Rule

/-! ### Reducing -/

namespace Match

variable {arith : Arithmetic}

mutual

/-- The elements that a match reduces to are anchored in its tokens. -/
theorem reduce_anchored : ∀ (m : Match) {data : Data}, m.reduce arith = .ok data →
    ∀ e ∈ data.flatten, e.Anchored arith m.leaves
  | absent, _, h => by
    cases h
    exact fun e he => nomatch he
  | token t, _, h => by
    cases h
    intro e he
    rw [Data.flatten, List.mem_singleton] at he
    subst he
    exact List.mem_singleton_self t
  | group parts, _, h => by
    rw [reduce] at h
    obtain ⟨items, hitems, h⟩ := exists_of_bind_eq_ok h
    cases h
    exact reduceAll_anchored parts hitems
  | rule r parts, _, h => by
    rw [reduce] at h
    obtain ⟨items, hitems, h⟩ := exists_of_bind_eq_ok h
    have hgiven : ∀ e ∈ (Data.sequence items).flatten, e.Anchored arith (leavesAll parts) :=
      reduceAll_anchored parts hitems
    exact Rule.build_anchored hgiven r h

/-- The elements that several matches reduce to are anchored in their tokens. -/
theorem reduceAll_anchored : ∀ (ms : List Match) {items : List Data},
    reduceAll arith ms = .ok items → ∀ e ∈ Data.flattenAll items, e.Anchored arith (leavesAll ms)
  | [], _, h => by
    cases h
    exact fun e he => nomatch he
  | m :: ms, _, h => by
    rw [reduceAll] at h
    obtain ⟨data, hdata, h⟩ := exists_of_bind_eq_ok h
    obtain ⟨items, hitems, h⟩ := exists_of_bind_eq_ok h
    cases h
    intro e he
    rw [leavesAll]
    rw [Data.flattenAll] at he
    rcases List.mem_append.mp he with he | he
    · exact (reduce_anchored m hdata e he).mono (List.subset_append_left _ _)
    · exact (reduceAll_anchored ms hitems e he).mono (List.subset_append_right _ _)

end

end Match

end OpenScad
