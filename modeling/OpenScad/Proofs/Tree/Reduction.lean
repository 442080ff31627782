/-
# Reducing matches that are alike

From matches of one shape, whose tokens have the same values and related
positions, come trees of one shape with the same values and related positions,
or the same error (`Match.Alike.reduce`). There is one law for each function
that rules are built from, and one for each rule.

Key theorems: `Rule.build_alike`, `Match.Alike.reduce`.
-/
import OpenScad.Proofs.Tree.Alike

namespace OpenScad

section Building

variable {A : Token → Token → Prop} {P : Position → Position → Prop} {arith arith' : Arithmetic}

/-! ### What rules are built from -/

section Lists

variable {α β : Type} {R : α → β → Prop} {as : List α} {bs : List β}

theorem forall₂_head? (h : List.Forall₂ R as bs) : Option.Rel R as.head? bs.head? := by
  cases h with
  | nil => exact .none
  | cons first _ => exact .some first

theorem forall₂_getLast? (h : List.Forall₂ R as bs) : Option.Rel R as.getLast? bs.getLast? := by
  obtain ⟨pairs, hpairs, rfl, rfl⟩ := exists_pairs h
  rw [List.getLast?_map, List.getLast?_map]
  cases hlast : pairs.getLast? with
  | none => exact .none
  | some x => exact .some (hpairs x (List.mem_of_getLast? hlast))

theorem forall₂_dropLast (h : List.Forall₂ R as bs) : List.Forall₂ R as.dropLast bs.dropLast := by
  rw [List.dropLast_eq_take, List.dropLast_eq_take, h.length_eq]
  exact List.forall₂_take _ h

end Lists

theorem outcomesAlike_error {α β : Type} {R : α → β → Prop} {e e' : NodeError} (h : e = e') :
    OutcomesAlike R (.error e) (.error e') :=
  h ▸ .error e

/-- Shapes of operations with related operators and operands. -/
inductive Shape.Alike (A : Token → Token → Prop) (P : Position → Position → Prop) :
    Shape → Shape → Prop where
  | noOperand : Alike A P .noOperand .noOperand
  | alreadyBuilt {n n' : Node} (node : n.Alike P n') :
      Alike A P (.alreadyBuilt n) (.alreadyBuilt n')
  | unary {t t' : Token} {n n' : Node} (operator : A t t') (operand : n.Alike P n') :
      Alike A P (.unary t n) (.unary t' n')
  | binary {t t' : Token} {l l' r r' : Node} (left : l.Alike P l') (operator : A t t')
      (right : r.Alike P r') : Alike A P (.binary l t r) (.binary l' t' r')

section Rules

variable (hA : TokensRelate A P arith arith') {es es' : List Element} {nodes nodes' : List Node}

include hA

theorem Shape.ofElements_alike (h : ElementsAlike A P es es') :
    OutcomesAlike (Shape.Alike A P) (Shape.ofElements es) (Shape.ofElements es') := by
  have hunexpected := ElementsAlike.unexpected hA h
  rcases h with - | ⟨ha, - | ⟨hb, - | ⟨hc, - | ⟨hd, hmore⟩⟩⟩⟩
  · exact .ok .noOperand
  · cases ha with
    | token => exact outcomesAlike_error (hunexpected _)
    | node node => exact .ok (.alreadyBuilt node)
  · cases ha with
    | node => cases hb <;> exact outcomesAlike_error (hunexpected _)
    | token operator =>
      cases hb with
      | token => exact outcomesAlike_error (hunexpected _)
      | node operand => exact .ok (.unary operator operand)
  · cases ha with
    | token => cases hb <;> cases hc <;> exact outcomesAlike_error (hunexpected _)
    | node left =>
      cases hb with
      | node => cases hc <;> exact outcomesAlike_error (hunexpected _)
      | token operator =>
        cases hc with
        | token => exact outcomesAlike_error (hunexpected _)
        | node right => exact .ok (.binary left operator right)
  · cases ha <;> cases hb <;> cases hc <;> exact outcomesAlike_error (hunexpected _)

namespace Rule

theorem withoutSemicolon_alike (h : ElementsAlike A P es es') :
    ElementsAlike A P (withoutSemicolon es) (withoutSemicolon es') := by
  unfold withoutSemicolon
  have hlast := forall₂_getLast? h
  generalize es.getLast? = x, es'.getLast? = y at hlast
  cases hlast with
  | none => exact h
  | some last =>
    simp only [last.isToken hA]
    split
    · exact forall₂_dropLast h
    · exact h

theorem onlyNodes_alike (h : ElementsAlike A P es es') :
    OutcomesAlike (List.Forall₂ (Node.Alike P)) (onlyNodes es) (onlyNodes es') := by
  induction h with
  | nil => exact .ok .nil
  | cons first _ ih =>
    cases first with
    | token token =>
      exact outcomesAlike_error (ElementsAlike.unexpected hA (.cons (.token token) .nil) _)
    | node node => exact ih.bind fun _ _ hnodes => .ok (.cons node hnodes)

theorem splitClosing_alike (h : ElementsAlike A P es es') :
    OutcomesAlike (fun x y => ElementsAlike A P x.1 y.1 ∧ A x.2 y.2) (splitClosing es)
      (splitClosing es') := by
  unfold splitClosing
  have hlast := forall₂_getLast? h
  generalize es.getLast? = x, es'.getLast? = y at hlast
  cases hlast with
  | none => exact .error _
  | some last =>
    have hunexpected := ElementsAlike.unexpected hA (.cons last .nil) "a closing brace"
    cases last with
    | node => exact outcomesAlike_error hunexpected
    | token token =>
      simp only [hA.value _ _ token]
      split
      · exact .ok ⟨forall₂_dropLast h, token⟩
      · exact outcomesAlike_error hunexpected

theorem splitOpening_alike (h : ElementsAlike A P es es') :
    OutcomesAlike (fun x y => A x.1 y.1 ∧ ElementsAlike A P x.2 y.2) (splitOpening es)
      (splitOpening es') := by
  have hunexpected := ElementsAlike.unexpected hA h "an opening brace"
  cases h with
  | nil => exact .error _
  | cons first more =>
    cases first with
    | node => exact outcomesAlike_error hunexpected
    | token token =>
      unfold splitOpening
      simp only [hA.value _ _ token]
      split
      · exact .ok ⟨token, more⟩
      · exact outcomesAlike_error hunexpected

omit hA in
theorem spanOf_alike (h : List.Forall₂ (Node.Alike P) nodes nodes') :
    OutcomesAlike (Span.Alike P) (spanOf nodes) (spanOf nodes') := by
  unfold spanOf
  have hfirst := forall₂_head? h
  have hlast := forall₂_getLast? h
  generalize nodes.head? = x, nodes'.head? = y at hfirst
  generalize nodes.getLast? = z, nodes'.getLast? = w at hlast
  cases hfirst with
  | none => exact .ok Span.alike_empty
  | some first =>
    cases hlast with
    | none => exact .ok Span.alike_empty
    | some last =>
      refine (first.placed .start).bind fun _ _ hstart => ?_
      exact (last.placed .stop).bind fun _ _ hstop => .ok (Span.alike_between hstart hstop)

theorem ofToken_alike {t t' : Token} (ht : A t t') (kind : NodeKind) (value : Field)
    (hvalue : ∀ node, Node.ofFields kind { entries := [("value", value)] } = .ok node →
      kind.isTerminal = true → node.Alike P node) :
    OutcomesAlike (Node.Alike P) (Node.ofToken arith kind t value)
      (Node.ofToken arith' kind t' value) := by
  unfold Node.ofToken
  split
  · rename_i hkind
    refine (hA.position t t' ht).bind fun _ _ hstart => ?_
    refine (hA.endPosition t t' ht).bind fun _ _ hstop => ?_
    refine (outcomesAlike_same fun node hnode => hvalue node hnode hkind).bind fun _ _ hnode => ?_
    exact (hnode.place .start hstart).bind fun _ _ hplaced => hplaced.place .stop hstop
  · exact .error _

/-! ### Rules -/

variable {d d' : Data}

theorem buildTerminal_alike (kind : NodeKind) (value : String → Field) (h : d.Alike A P d') :
    OutcomesAlike (Data.Alike A P) (buildTerminal arith kind value d)
      (buildTerminal arith' kind value d') := by
  unfold buildTerminal
  have htoken : OutcomesAlike A (singleToken d) (singleToken d') :=
    h.forward.bind fun _ _ hitem => hitem.intoToken hA
  refine htoken.bind fun t t' ht => ?_
  rw [hA.value t t' ht]
  refine (ofToken_alike hA ht kind _ fun node hnode hkind => ?_).bind fun _ _ hnode =>
    .ok (.node hnode)
  obtain ⟨hchildren, hspan⟩ := Node.bare_of_ofFields hkind hnode
  exact Node.alike_self hchildren hspan

theorem buildOperation_alike (h : d.Alike A P d') :
    OutcomesAlike (Data.Alike A P) (buildOperation d) (buildOperation d') := by
  unfold buildOperation
  refine (Shape.ofElements_alike hA h.flatten).bind fun shape shape' hshape => ?_
  cases hshape with
  | noOperand => exact .ok .absent
  | alreadyBuilt node => exact .ok (.node node)
  | @unary t t' _ _ operator operand =>
    refine (hA.position t t' operator).bind fun _ _ hstart => ?_
    refine (operand.placed .stop).bind fun _ _ hstop => ?_
    rw [hA.value t t' operator]
    exact .ok (.node (.unaryOperator operand (Span.alike_between hstart hstop)))
  | @binary t t' _ _ _ _ left operator right =>
    refine (left.placed .start).bind fun _ _ hstart => ?_
    refine (right.placed .stop).bind fun _ _ hstop => ?_
    rw [hA.value t t' operator]
    exact .ok (.node (.binaryOperator left right (Span.alike_between hstart hstop)))

theorem buildParenthesized_alike (h : d.Alike A P d') :
    OutcomesAlike (Data.Alike A P) (buildParenthesized d) (buildParenthesized d') := by
  unfold buildParenthesized
  have hinner : ElementsAlike A P (d.flatten.filter fun e => !e.isToken "(" && !e.isToken ")")
      (d'.flatten.filter fun e => !e.isToken "(" && !e.isToken ")") :=
    List.rel_filter (fun e e' he => by simp only [he.isToken hA]) h.flatten
  refine (Data.alike_ofElements hinner).forward.bind fun item item' hitem => ?_
  exact (hitem.intoNode hA).bind fun _ _ hnode => .ok (.node hnode)

omit hA in
theorem buildStatement_alike (h : d.Alike A P d') :
    OutcomesAlike (Data.Alike A P) (buildStatement d) (buildStatement d') :=
  (Data.alike_ofElements h.flatten).forward

theorem buildAssignment_alike (h : d.Alike A P d') :
    OutcomesAlike (Data.Alike A P) (buildAssignment d) (buildAssignment d') := by
  unfold buildAssignment
  have hes := withoutSemicolon_alike hA h.flatten
  generalize withoutSemicolon d.flatten = es, withoutSemicolon d'.flatten = es' at hes
  have hunexpected := ElementsAlike.unexpected hA hes
  rcases hes with - | ⟨ha, - | ⟨hb, - | ⟨hc, - | ⟨hd, hmore⟩⟩⟩⟩
  · exact outcomesAlike_error (hunexpected _)
  · cases ha <;> exact outcomesAlike_error (hunexpected _)
  · cases ha <;> cases hb <;> exact outcomesAlike_error (hunexpected _)
  · cases ha with
    | token => cases hb <;> cases hc <;> exact outcomesAlike_error (hunexpected _)
    | node name =>
      cases hb with
      | node => cases hc <;> exact outcomesAlike_error (hunexpected _)
      | @token t t' equals =>
        cases hc with
        | token => exact outcomesAlike_error (hunexpected _)
        | node value =>
          simp only [hA.value t t' equals]
          split
          · refine (name.placed .start).bind fun _ _ hstart => ?_
            refine (value.placed .stop).bind fun _ _ hstop => ?_
            have hassign := (name.ofKind .assignment "identifier" .identifier).bind
              fun _ _ hname => .ok (Node.Alike.assignment hname value Span.alike_empty)
            exact hassign.bind fun _ _ hnode =>
              .ok (.node (hnode.withSpan (Span.alike_between hstart hstop)))
          · exact outcomesAlike_error (hunexpected _)
  · cases ha <;> cases hb <;> cases hc <;> exact outcomesAlike_error (hunexpected _)

theorem buildPathStatement_alike (keyword : String) {make : Node → Except NodeError Node}
    (hmake : ∀ n n', Node.Alike P n n' → OutcomesAlike (Node.Alike P) (make n) (make n'))
    (h : d.Alike A P d') :
    OutcomesAlike (Data.Alike A P) (buildPathStatement keyword make d)
      (buildPathStatement keyword make d') := by
  unfold buildPathStatement
  have hes := withoutSemicolon_alike hA h.flatten
  generalize withoutSemicolon d.flatten = es, withoutSemicolon d'.flatten = es' at hes
  have hunexpected := ElementsAlike.unexpected hA hes
  rcases hes with - | ⟨ha, - | ⟨hb, - | ⟨hc, hmore⟩⟩⟩
  · exact outcomesAlike_error (hunexpected _)
  · cases ha <;> exact outcomesAlike_error (hunexpected _)
  · cases ha with
    | node => cases hb <;> exact outcomesAlike_error (hunexpected _)
    | @token t t' word =>
      cases hb with
      | token => exact outcomesAlike_error (hunexpected _)
      | node file =>
        simp only [hA.value t t' word]
        split
        · refine (hA.position t t' word).bind fun _ _ hstart => ?_
          refine (file.placed .stop).bind fun _ _ hstop => ?_
          exact (hmake _ _ file).bind fun _ _ hnode =>
            .ok (.node (hnode.withSpan (Span.alike_between hstart hstop)))
        · exact outcomesAlike_error (hunexpected _)
  · cases ha <;> cases hb <;> exact outcomesAlike_error (hunexpected _)

omit hA in
theorem use_alike {n n' : Node} (h : n.Alike P n') :
    OutcomesAlike (Node.Alike P) n.use n'.use :=
  (h.ofKind .usePath "path" .path).bind fun _ _ hpath =>
    .ok (.usePath hpath Span.alike_empty)

omit hA in
theorem inclusion_alike {n n' : Node} (h : n.Alike P n') :
    OutcomesAlike (Node.Alike P) n.inclusion n'.inclusion :=
  (h.ofKind .includePath "path" .path).bind fun _ _ hpath =>
    .ok (.includePath hpath Span.alike_empty)

theorem buildBlock_alike (h : d.Alike A P d') :
    OutcomesAlike (Data.Alike A P) (buildBlock arith d) (buildBlock arith' d') := by
  unfold buildBlock
  refine (splitClosing_alike hA h.flatten).bind fun ⟨es, c⟩ ⟨es', c'⟩ ⟨hes, hclosing⟩ => ?_
  refine (splitOpening_alike hA hes).bind fun ⟨o, fs⟩ ⟨o', fs'⟩ ⟨hopening, hfs⟩ => ?_
  refine (onlyNodes_alike hA hfs).bind fun nodes nodes' hnodes => ?_
  refine (hA.position _ _ hopening).bind fun _ _ hstart => ?_
  refine (hA.endPosition _ _ hclosing).bind fun _ _ hstop => ?_
  exact .ok (.node (Node.alike_block hnodes (Span.alike_between hstart hstop)))

theorem buildProgram_alike (h : d.Alike A P d') :
    OutcomesAlike (Data.Alike A P) (buildProgram d) (buildProgram d') := by
  unfold buildProgram
  refine (onlyNodes_alike hA h.flatten).bind fun nodes nodes' hnodes => ?_
  exact (spanOf_alike hnodes).bind fun _ _ hspan => .ok (.node (Node.alike_block hnodes hspan))

/-- Every rule makes like match-results, or the same error, of like ones. -/
theorem build_alike (r : Rule) (h : d.Alike A P d') :
    OutcomesAlike (Data.Alike A P) (r.build arith d) (r.build arith' d') := by
  cases r <;> rw [build]
  case program => exact buildProgram_alike hA h
  case statement => exact buildStatement_alike h
  case block => exact buildBlock_alike hA h
  case assignment => exact buildAssignment_alike hA h
  case usePath => exact buildPathStatement_alike hA _ (fun _ _ => use_alike) h
  case includePath => exact buildPathStatement_alike hA _ (fun _ _ => inclusion_alike) h
  case operation => exact buildOperation_alike hA h
  case parenthesized => exact buildParenthesized_alike hA h
  -- what is left are the rules of single tokens
  all_goals exact buildTerminal_alike hA _ _ h

end Rule

/-! ### Reducing -/

namespace Match

omit hA in
theorem reduceAll_alike {pairs : List (Match × Match)}
    (h : ∀ x ∈ pairs, OutcomesAlike (Data.Alike A P) (x.1.reduce arith) (x.2.reduce arith')) :
    OutcomesAlike (List.Forall₂ (Data.Alike A P)) (reduceAll arith (pairs.map (·.1)))
      (reduceAll arith' (pairs.map (·.2))) := by
  induction pairs with
  | nil => exact .ok .nil
  | cons x pairs ih =>
    have later := ih fun y hy => h y (List.mem_cons_of_mem x hy)
    rw [List.map_cons, List.map_cons, reduceAll, reduceAll]
    refine (h x List.mem_cons_self).bind fun _ _ hdata => ?_
    exact later.bind fun _ _ hitems => .ok (.cons hdata hitems)

/-- **Matches that are alike reduce to trees that are alike, or to the same error,** each under an
arithmetic of its own. -/
theorem Alike.reduce {m m' : Match} (h : m.Alike A m') :
    OutcomesAlike (Data.Alike A P) (m.reduce arith) (m'.reduce arith') := by
  induction h with
  | absent => exact .ok .absent
  | token token => exact .ok (.token token)
  | group _ ih =>
    rw [Match.reduce, Match.reduce]
    exact (reduceAll_alike ih).bind fun _ _ hitems => .ok (Data.alike_sequence hitems)
  | @rule r _ _ ih =>
    rw [Match.reduce, Match.reduce]
    exact (reduceAll_alike ih).bind fun _ _ hitems =>
      Rule.build_alike hA r (Data.alike_sequence hitems)

end Match
end Rules
end Building
end OpenScad
