/-
# No phrase has two matches

A phrase at the front of a list of tokens ends in one place only, if what is
behind it cannot continue it (`Phrase.boundary`): the parser takes it, and can
leave only one rest. So a list of tokens falls into statements, or a phrase of a
level into operands, in one way only, and the match of a phrase is determined by
its tokens (`Parses.unique`, `IsProgram.unique`).

Key theorems: `Phrase.boundary`, `eq_of_flatten_eq`, `Parses.unique`,
`IsProgram.unique`.
-/
import Mathlib.Data.List.Nodup
import OpenScad.Proofs.Grammar.Longest

namespace OpenScad

/-- A parser that takes two lists from the front of the same tokens, each of which ends where
nothing continues it, takes one list. -/
theorem Parser.Takes.unique {α : Type} {p : Parser α} {kinds : List TokenKind}
    {u v w x : List Lexeme} (hu : p.Takes kinds u) (hv : p.Takes kinds v)
    (h : u ++ w = v ++ x) (hw : Stops kinds w) (hx : Stops kinds x) : u = v := by
  obtain ⟨y, rest, hy, ⟨a, j, hr⟩, hstop⟩ := hu 0 w
  obtain ⟨z, rest', hz, ⟨b, k, hr'⟩, hstop'⟩ := hv 0 x
  rw [hstop hw, List.nil_append] at hy
  rw [hstop' hx, List.nil_append] at hz
  rw [h, hr'] at hr
  cases hr
  subst hy hz
  exact List.append_cancel_right h

namespace Grammar

/-! ### Where phrases end -/

/-- A phrase that nothing continues ends in one place only. -/
theorem Phrase.boundary {n : Nonterminal} {u v w x : List Lexeme} (hu : Phrase n u)
    (hv : Phrase n v) (h : u ++ w = v ++ x) (hw : Stops (follow n) w) (hx : Stops (follow n) x) :
    u = v := by
  have takes_u := hu.takes (u ++ v) (by rw [List.length_append]; omega)
  have takes_v := hv.takes (u ++ v) (by rw [List.length_append]; omega)
  exact takes_u.unique takes_v h hw hx

theorem stops_flatten {R : List Lexeme → Prop} {kinds : List TokenKind}
    (hfirst : ∀ u, R u → ∃ l v, u = l :: v ∧ l.kind ∉ kinds) {parts : List (List Lexeme)}
    (h : ∀ u ∈ parts, R u) : Stops kinds parts.flatten := by
  cases parts with
  | nil => exact fun l hl => nomatch hl
  | cons u parts =>
    obtain ⟨l, v, rfl, hl⟩ := hfirst u (h u List.mem_cons_self)
    exact stops_cons hl _

/-- Tokens fall in one way only into parts that end in one place each, if no part begins with
what continues another. -/
theorem eq_of_flatten_eq {R : List Lexeme → Prop} {kinds : List TokenKind}
    (hend : ∀ {u v w x}, R u → R v → u ++ w = v ++ x → Stops kinds w → Stops kinds x → u = v)
    (hfirst : ∀ u, R u → ∃ l v, u = l :: v ∧ l.kind ∉ kinds) :
    ∀ {parts more : List (List Lexeme)}, (∀ u ∈ parts, R u) → (∀ u ∈ more, R u) →
      parts.flatten = more.flatten → parts = more
  | [], [], _, _, _ => rfl
  | [], v :: more, _, hmore, h => by
    obtain ⟨l, v', rfl, -⟩ := hfirst v (hmore v List.mem_cons_self)
    simp at h
  | u :: parts, [], hparts, _, h => by
    obtain ⟨l, u', rfl, -⟩ := hfirst u (hparts u List.mem_cons_self)
    simp at h
  | u :: parts, v :: more, hparts, hmore, h => by
    have hparts' : ∀ w ∈ parts, R w := fun w hw => hparts w (List.mem_cons_of_mem u hw)
    have hmore' : ∀ w ∈ more, R w := fun w hw => hmore w (List.mem_cons_of_mem v hw)
    rw [List.flatten_cons, List.flatten_cons] at h
    have huv : u = v := hend (hparts u List.mem_cons_self) (hmore v List.mem_cons_self) h
      (stops_flatten hfirst hparts') (stops_flatten hfirst hmore')
    subst huv
    rw [eq_of_flatten_eq hend hfirst hparts' hmore' (List.append_cancel_left h)]

/-- Tokens fall into statements in one way only. -/
theorem eq_of_statements {parts more : List (List Lexeme)}
    (hparts : ∀ u ∈ parts, Phrase .statement u) (hmore : ∀ u ∈ more, Phrase .statement u)
    (h : parts.flatten = more.flatten) : parts = more :=
  eq_of_flatten_eq (fun hu hv => hu.boundary hv) (fun _ hu => hu.first_not_semicolon)
    hparts hmore h

/-! ### Operands of a level -/

/-- A list of an operator of a level and an operand. -/
def IsOperatorOperand (k : Nat) (u : List Lexeme) : Prop :=
  ∃ o v, u = o :: v ∧ o.kind ∈ operators k ∧ Phrase (.level k) v

theorem IsOperatorOperand.first {k : Nat} (u : List Lexeme) (h : IsOperatorOperand k u) :
    ∃ l v, u = l :: v ∧ l.kind ∉ tighter k := by
  obtain ⟨o, v, rfl, ho, -⟩ := h
  exact ⟨o, v, rfl, not_mem_tighter ho⟩

/-- A phrase of a level of binary operators begins with an operand, behind which further
operators and operands stand. -/
theorem Phrase.exists_operands {k : Nat} {u : List Lexeme} (h : Phrase (.level (k + 1)) u) :
    ∃ (first : List Lexeme) (tails : List (List Lexeme)), Phrase (.level k) first ∧
      (∀ t ∈ tails, IsOperatorOperand k t) ∧ u = first ++ tails.flatten := by
  cases h with
  | @binary _ first tails left signs operands =>
    refine ⟨first, tails.map fun t => t.1 :: t.2, left, ?_, by rw [List.flatMap_def]⟩
    intro t ht
    obtain ⟨x, hx, rfl⟩ := List.mem_map.mp ht
    exact ⟨x.1, x.2, rfl, signs x hx, operands x hx⟩

/-- The operands of a phrase are determined by its tokens. -/
theorem eq_of_operands {k : Nat} {first first' : List Lexeme} {tails tails' : List (List Lexeme)}
    (hfirst : Phrase (.level k) first) (hfirst' : Phrase (.level k) first')
    (htails : ∀ t ∈ tails, IsOperatorOperand k t) (htails' : ∀ t ∈ tails', IsOperatorOperand k t)
    (h : first ++ tails.flatten = first' ++ tails'.flatten) : first = first' ∧ tails = tails' := by
  have heq : first = first' := hfirst.boundary hfirst' h
    (stops_flatten IsOperatorOperand.first htails) (stops_flatten IsOperatorOperand.first htails')
  subst heq
  refine ⟨rfl, eq_of_flatten_eq ?_ IsOperatorOperand.first htails htails'
    (List.append_cancel_left h)⟩
  rintro _ _ w x ⟨o, u, rfl, -, hu⟩ ⟨p, v, rfl, -, hv⟩ hsame hw hx
  obtain ⟨rfl, hoperands⟩ := List.cons.inj hsame
  rw [hu.boundary hv hoperands hw hx]

/-- Behind a phrase of a level, an operator and an operand are one more part of the same sort. -/
theorem Phrase.exists_operands_append {k : Nat} {u v : List Lexeme} {o : Lexeme}
    (hu : Phrase (.level (k + 1)) u) (ho : o.kind ∈ operators k) (hv : Phrase (.level k) v) :
    ∃ (first : List Lexeme) (tails : List (List Lexeme)), Phrase (.level k) first ∧
      (∀ t ∈ tails ++ [o :: v], IsOperatorOperand k t) ∧ u = first ++ tails.flatten := by
  obtain ⟨first, tails, hfirst, htails, rfl⟩ := hu.exists_operands
  refine ⟨first, tails, hfirst, ?_, rfl⟩
  rw [List.forall_mem_append, List.forall_mem_singleton]
  exact ⟨htails, o, v, rfl, ho, hv⟩

/-- The last operand of a phrase is determined by its tokens. -/
theorem eq_of_last_operand {k : Nat} {u u' v v' : List Lexeme} {o o' : Lexeme}
    (hu : Phrase (.level (k + 1)) u) (hu' : Phrase (.level (k + 1)) u')
    (ho : o.kind ∈ operators k) (ho' : o'.kind ∈ operators k) (hv : Phrase (.level k) v)
    (hv' : Phrase (.level k) v') (h : u ++ o :: v = u' ++ o' :: v') :
    u = u' ∧ o = o' ∧ v = v' := by
  obtain ⟨first, tails, hfirst, htails, rfl⟩ := hu.exists_operands_append ho hv
  obtain ⟨first', tails', hfirst', htails', rfl⟩ := hu'.exists_operands_append ho' hv'
  obtain ⟨rfl, hsame⟩ := eq_of_operands hfirst hfirst' htails htails' (by simpa using h)
  obtain ⟨rfl, hlast⟩ := List.append_inj' hsame rfl
  cases hlast
  exact ⟨rfl, rfl, rfl⟩

/-- A phrase with an operator of a level outside parentheses is not one of the level below. -/
theorem not_phrase_tighter {k : Nat} {u v : List Lexeme} {o : Lexeme}
    (hu : Phrase (.level (k + 1)) u) (ho : o.kind ∈ operators k) (hv : Phrase (.level k) v) :
    ¬ Phrase (.level k) (u ++ o :: v) := by
  intro hwhole
  obtain ⟨first, tails, hfirst, htails, rfl⟩ := hu.exists_operands_append ho hv
  have hnone : ∀ t ∈ ([] : List (List Lexeme)), IsOperatorOperand k t := by simp
  have := (eq_of_operands hwhole hfirst hnone htails (by simp)).2
  simp at this

/-- A primary does not begin with a prefix operator. -/
theorem not_phrase_primary {u : List Lexeme} {o : Lexeme} (ho : o.kind ∈ prefixes) :
    ¬ Phrase .primary (o :: u) := by
  intro h
  obtain ⟨l, v, hl, hstart⟩ := h.first_primary
  cases hl
  have hnot : ∀ kind ∈ prefixes, kind ∉ primaryStarts := by decide
  exact hnot _ ho hstart

/-! ### The match of a phrase -/

theorem eq_of_rules {rules : List (TokenKind × Rule)} {kind : TokenKind} {r r' : Rule}
    (hrules : (rules.map (·.1)).Nodup) (h : (kind, r) ∈ rules) (h' : (kind, r') ∈ rules) :
    r = r' :=
  congrArg Prod.snd (List.inj_on_of_nodup_map hrules h h' rfl)

/-- Parts of the same tokens have the same matches if the match of each is determined. -/
theorem eq_of_parts : ∀ {parts more : List (List Lexeme × Match)},
    (∀ x ∈ parts, ∀ m, Parses .statement x.1 m → x.2 = m) →
    (∀ x ∈ more, Parses .statement x.1 x.2) → parts.map (·.1) = more.map (·.1) → parts = more
  | [], [], _, _, _ => rfl
  | x :: parts, y :: more, hparts, hmore, h => by
    rw [List.map_cons, List.map_cons] at h
    obtain ⟨hfst, htails⟩ := List.cons.inj h
    have hsnd := hparts x List.mem_cons_self y.2 (hfst ▸ hmore y List.mem_cons_self)
    rw [eq_of_parts (fun z hz => hparts z (List.mem_cons_of_mem x hz))
      (fun z hz => hmore z (List.mem_cons_of_mem y hz)) htails, Prod.ext hfst hsnd]

/-- **The match of a phrase is determined by its tokens.** -/
theorem Parses.unique {n : Nonterminal} {u : List Lexeme} {m m' : Match} (h : Parses n u m)
    (h' : Parses n u m') : m = m' := by
  induction h generalizing m' with
  | @literal l r rule =>
    generalize hu : [l] = u at h'
    cases h' with
    | literal rule' =>
      cases hu
      rw [eq_of_rules (by decide) rule rule']
    | parentheses => simp at hu
  | @parentheses o c u m opening inner closing ih =>
    generalize hu : o :: (u ++ [c]) = v at h'
    cases h' with
    | literal => simp at hu
    | parentheses _ inner' =>
      obtain ⟨rfl, hrest⟩ := List.cons.inj hu
      obtain ⟨rfl, hlast⟩ := List.append_inj' hrest rfl
      cases hlast
      rw [ih inner']
  | @operand u m operand ih =>
    cases h' with
    | operand operand' => rw [ih operand']
    | unary sign => exact absurd operand.phrase (not_phrase_primary sign)
  | @unary o u m sign _ ih =>
    cases h' with
    | operand operand' => exact absurd operand'.phrase (not_phrase_primary sign)
    | unary _ operand' => rw [ih operand']
  | @tighter k u m operand ih =>
    cases h' with
    | tighter operand' => rw [ih operand']
    | binary left sign right =>
      exact absurd operand.phrase (not_phrase_tighter left.phrase sign right.phrase)
  | @binary k u v o a b left sign right ihl ihr =>
    generalize hu : u ++ o :: v = w at h'
    cases h' with
    | tighter operand =>
      subst hu
      exact absurd operand.phrase (not_phrase_tighter left.phrase sign right.phrase)
    | binary left' sign' right' =>
      obtain ⟨rfl, rfl, rfl⟩ := eq_of_last_operand left.phrase left'.phrase sign sign'
        right.phrase right'.phrase hu
      rw [ihl left', ihr right']
  | @assignment name equals semicolon u m name_kind _ _ _ ih =>
    generalize hu : name :: equals :: (u ++ [semicolon]) = v at h'
    cases h' with
    | assignment _ _ value' =>
      obtain ⟨rfl, hbehind⟩ := List.cons.inj hu
      obtain ⟨rfl, hrest⟩ := List.cons.inj hbehind
      obtain ⟨rfl, hlast⟩ := List.append_inj' hrest rfl
      cases hlast
      rw [ih value']
    | path rule =>
      obtain ⟨rfl, -⟩ := List.cons.inj hu
      rw [name_kind] at rule
      simp [pathRules] at rule
    | block opening =>
      obtain ⟨rfl, -⟩ := List.cons.inj hu
      rw [name_kind] at opening
      cases opening
    | comment => simp at hu
  | @path word file semicolon r rule _ _ =>
    generalize hu : word :: file :: semicolon.toList = v at h'
    have hword := kind_mem_of_rule rule
    cases h' with
    | assignment name_kind =>
      obtain ⟨rfl, -⟩ := List.cons.inj hu
      rw [name_kind] at hword
      simp [pathRules] at hword
    | @path _ _ semicolon' _ rule' =>
      obtain ⟨rfl, hrest⟩ := List.cons.inj hu
      obtain ⟨rfl, hlast⟩ := List.cons.inj hrest
      have hsemicolon : semicolon = semicolon' := by
        cases semicolon <;> cases semicolon' <;> simp_all
      rw [eq_of_rules (by decide) rule rule', hsemicolon]
    | block opening =>
      obtain ⟨rfl, -⟩ := List.cons.inj hu
      rw [opening] at hword
      simp [pathRules] at hword
    | comment => simp at hu
  | @block o c parts opening statements _ ih =>
    generalize hu : o :: ((parts.map (·.1)).flatten ++ [c]) = v at h'
    cases h' with
    | assignment name_kind =>
      obtain ⟨rfl, -⟩ := List.cons.inj hu
      rw [opening] at name_kind
      cases name_kind
    | path rule =>
      obtain ⟨rfl, -⟩ := List.cons.inj hu
      rw [opening] at rule
      simp [pathRules] at rule
    | @block _ _ parts' _ statements' =>
      obtain ⟨rfl, hrest⟩ := List.cons.inj hu
      obtain ⟨hflatten, hlast⟩ := List.append_inj' hrest rfl
      cases hlast
      have htokens : parts.map (·.1) = parts'.map (·.1) := eq_of_statements
        (List.forall_mem_map.mpr fun x hx => (statements x hx).phrase)
        (List.forall_mem_map.mpr fun x hx => (statements' x hx).phrase) hflatten
      rw [eq_of_parts (fun x hx m hm => ih x hx hm) statements' htokens]
    | comment => simp at hu
  | @comment l r rule =>
    generalize hu : [l] = u at h'
    cases h' with
    | comment rule' =>
      cases hu
      rw [eq_of_rules (by decide) rule rule']
    | assignment => simp at hu
    | path => simp at hu
    | block => simp at hu

/-- **The match of a program is determined by its tokens.** -/
theorem IsProgram.unique {ls : List Lexeme} {m m' : Match} (h : IsProgram ls m)
    (h' : IsProgram ls m') : m = m' := by
  obtain ⟨parts, hparts, rfl, rfl⟩ := h
  obtain ⟨parts', hparts', hflatten, rfl⟩ := h'
  have htokens : parts.map (·.1) = parts'.map (·.1) := eq_of_statements
    (List.forall_mem_map.mpr fun x hx => (hparts x hx).phrase)
    (List.forall_mem_map.mpr fun x hx => (hparts' x hx).phrase) hflatten
  rw [eq_of_parts (fun x hx m hm => (hparts x hx).unique hm) hparts' htokens]

/-- The parser gives a program its match. -/
theorem IsProgram.run_eq {ls : List Lexeme} {m : Match} (h : IsProgram ls m) :
    program.run ls = .ok m := by
  obtain ⟨parts, hparts, rfl, -⟩ := id h
  obtain ⟨m', hm'⟩ := exists_run_program
    (List.forall_mem_map.mpr fun x hx => (hparts x hx).phrase)
  rw [hm', h.unique (program_sound hm')]

end Grammar
end OpenScad
