/-
# Parsing and coordinates

Where the tokens of a source stand decides nothing: with other valid coordinates
and other raw texts, tokens of the same kinds and values pass the nesting check
or fail it at the same place, are accepted by the grammar or rejected at the
same place, and reduce to trees that differ in positions only, or fail to for one
reason (`decisions_without_coordinates`). They fail only where the value of a
token is no text of its kind. Where additions are checked, this is said of tokens
whose ends have words for coordinates.

The nesting check reads kinds alone. The grammar and the rules were followed on
two lists of related tokens before; here the relation asks only for equal values
and valid coordinates, and positions are not compared at all. What is the same
on both sides is seen by erasing the positions.

Key definitions: `Token.Elsewhere`, `Token.EndFits`, `Node.erased`, `Nesting.StopsAt`.
Key theorems: `Node.Alike.erased_eq`, `decisions_without_coordinates`,
`accepted_without_tree`.
-/
import OpenScad.Proofs.Parse.Brackets
import OpenScad.Proofs.Parse.Misfit
import OpenScad.Proofs.Tree.Inversion
import OpenScad.Proofs.Tree.Reduction

namespace OpenScad

/-! ### Tokens at other places -/

/-- The line and the column of the token count from one. -/
def Token.IsValid (t : Token) : Prop := 1 ≤ t.line ∧ 1 ≤ t.column

instance (t : Token) : Decidable t.IsValid := inferInstanceAs (Decidable (_ ∧ _))

/-- A token, and one of the same value somewhere else; both coordinates are valid. -/
structure Token.Elsewhere (t t' : Token) : Prop where
  value : t.value = t'.value
  valid : t.IsValid
  valid_other : t'.IsValid

/-- The place past the token has words for coordinates. -/
def Token.EndFits (t : Token) : Prop := ∀ stop, t.endPosition .exact = .ok stop → stop.Fits

/-- A token, and one of the same value somewhere else, which have ends under two arithmetics. -/
structure Token.EndsElsewhere (arith arith' : Arithmetic) (t t' : Token) : Prop
    extends Token.Elsewhere t t' where
  ends : ∃ stop, t.endPosition arith = .ok stop
  ends_other : ∃ stop, t'.endPosition arith' = .ok stop

section Ends

variable {arith arith' : Arithmetic}

theorem Token.IsValid.exists_position {t : Token} (h : t.IsValid) : ∃ p, t.position = .ok p := by
  obtain ⟨p, hp⟩ := exists_standsAt h.1 h.2
  exact ⟨p, hp.position⟩

/-- A token with valid coordinates has an end, if that fits where additions are checked. -/
theorem Token.IsValid.exists_end {t : Token} (h : t.IsValid)
    (hfits : arith = .checked → t.EndFits) : ∃ stop, t.endPosition arith = .ok stop := by
  obtain ⟨p, hp⟩ := h.exists_position
  rw [endPosition_of_position hp]
  exact Position.exists_inWords fun harith => hfits harith _ (endPosition_of_position hp)

theorem tokensRelate_elsewhere :
    TokensRelate (Token.EndsElsewhere arith arith') (fun _ _ => True) arith arith' := by
  constructor
  · exact fun t t' h => h.value
  · intro t t' h
    obtain ⟨p, hp⟩ := h.valid.exists_position
    obtain ⟨q, hq⟩ := h.valid_other.exists_position
    rw [hp, hq]
    exact .ok trivial
  · intro t t' h
    obtain ⟨p, hp⟩ := h.ends
    obtain ⟨q, hq⟩ := h.ends_other
    rw [hp, hq]
    exact .ok trivial

theorem forall₂_ends {ls ls' : List Lexeme}
    (h : List.Forall₂ (Lexeme.Alike Token.Elsewhere) ls ls')
    (hends : ∀ l ∈ ls, ∃ stop, l.token.endPosition arith = .ok stop)
    (hends' : ∀ l ∈ ls', ∃ stop, l.token.endPosition arith' = .ok stop) :
    List.Forall₂ (Lexeme.Alike (Token.EndsElsewhere arith arith')) ls ls' := by
  induction h with
  | nil => exact .nil
  | cons hl _ ih =>
    obtain ⟨hfirst, hrest⟩ := List.forall_mem_cons.mp hends
    obtain ⟨hfirst', hrest'⟩ := List.forall_mem_cons.mp hends'
    exact .cons ⟨hl.kind, ⟨hl.token, hfirst, hfirst'⟩⟩ (ih hrest hrest')

end Ends

/-! ### Trees without positions -/

namespace Node

mutual

/-- The tree without the endpoints of its nodes. -/
def erased : Node → Node
  | number value _ => number value {}
  | string value _ => string value {}
  | path value _ => path value {}
  | boolean value _ => boolean value {}
  | identifier value _ => identifier value {}
  | undefined _ => undefined {}
  | lineComment value _ => lineComment value {}
  | blockComment value _ => blockComment value {}
  | assignment name value _ => assignment name.erased value.erased {}
  | block statements _ => block (erasedAll statements) {}
  | binaryOperator operator left right _ => binaryOperator operator left.erased right.erased {}
  | unaryOperator operator value _ => unaryOperator operator value.erased {}
  | usePath file _ => usePath file.erased {}
  | includePath file _ => includePath file.erased {}

/-- Trees without the endpoints of their nodes. -/
def erasedAll : List Node → List Node
  | [] => []
  | node :: nodes => node.erased :: erasedAll nodes

end

theorem erasedAll_eq : ∀ nodes : List Node, erasedAll nodes = nodes.map erased
  | [] => rfl
  | node :: nodes => by rw [erasedAll, erasedAll_eq nodes, List.map_cons]

theorem erased_withSpan (node : Node) (span : Span) :
    (node.withSpan span).erased = node.erased := by
  cases node <;> simp [withSpan, erased]

/-- Trees that are alike are the same without their endpoints. -/
theorem Alike.erased_eq {P : Position → Position → Prop} {n n' : Node} (h : n.Alike P n') :
    n.erased = n'.erased := by
  induction h with
  | leaf => rw [erased_withSpan, erased_withSpan]
  | assignment _ _ _ ihn ihv => rw [erased, erased, ihn, ihv]
  | @block pairs _ _ _ _ ih =>
    have hpairs : (pairs.map (·.1)).map erased = (pairs.map (·.2)).map erased := by
      rw [List.map_map, List.map_map]
      exact List.map_congr_left ih
    rw [erased, erased, erasedAll_eq, erasedAll_eq, hpairs]
  | binaryOperator _ _ _ ihl ihr => rw [erased, erased, ihl, ihr]
  | unaryOperator _ _ ih => rw [erased, erased, ih]
  | usePath _ _ ih => rw [erased, erased, ih]
  | includePath _ _ ih => rw [erased, erased, ih]

end Node

/-! ### The nesting check -/

namespace Nesting

/-- The check stops at the token at an index: it passes the tokens before, and with this one
it shows it. -/
def StopsAt (ls : List Lexeme) (i : Nat) : Prop :=
  i < ls.length ∧ tooDeep? (ls.take i) = none ∧ tooDeep? (ls.take (i + 1)) = ls[i]?

variable {T : Lexeme → Lexeme → Prop} {nesting : Nesting} {ls ls' : List Lexeme}

/-- The check reads kinds alone, so it stops at the same place of two lists of the same kinds. -/
theorem tooDeepFrom?_of_kinds (hT : ∀ l l', T l l' → l.kind = l'.kind) (h : List.Forall₂ T ls ls') :
    (nesting.tooDeepFrom? ls = none ∧ nesting.tooDeepFrom? ls' = none) ∨
      ∃ i, i < ls.length ∧ nesting.tooDeepFrom? ls = ls[i]? ∧ nesting.tooDeepFrom? ls' = ls'[i]? ∧
        nesting.tooDeepFrom? (ls.take i) = none ∧ nesting.tooDeepFrom? (ls'.take i) = none ∧
        nesting.tooDeepFrom? (ls.take (i + 1)) = ls[i]? ∧
        nesting.tooDeepFrom? (ls'.take (i + 1)) = ls'[i]? := by
  induction h generalizing nesting with
  | nil => exact .inl ⟨rfl, rfl⟩
  | @cons l l' ls ls' hl _ ih =>
    have hkind := hT l l' hl
    by_cases hdeep : limit < (nesting.next l.kind).levels
    · refine .inr ⟨0, ?_⟩
      have hdeep' : limit < (nesting.next l'.kind).levels := hkind ▸ hdeep
      simp [tooDeepFrom?, hdeep, hdeep']
    · have hdeep' : ¬ limit < (nesting.next l'.kind).levels := hkind ▸ hdeep
      rcases @ih (nesting.next l.kind) with ⟨hnone, hnone'⟩ | ⟨i, hi, hstop⟩
      · left
        simp only [tooDeepFrom?, if_neg hdeep, hnone, ← hkind, hnone', and_self]
      · refine .inr ⟨i + 1, Nat.succ_lt_succ hi, ?_⟩
        simpa only [tooDeepFrom?, List.take_succ_cons, List.getElem?_cons_succ, if_neg hdeep,
          if_neg hdeep', ← hkind] using hstop

end Nesting

/-! ### Matches of programs -/

/-- What a match of a program reduces to, if to anything, is a node. -/
theorem Grammar.IsProgram.exists_node {ls : List Lexeme} {m : Match} {data : Data}
    {arith : Arithmetic} (h : IsProgram ls m) (hm : m.reduce arith = .ok data) :
    ∃ node, data = .node node := by
  obtain ⟨parts, -, -, rfl⟩ := h
  rw [Match.reduce] at hm
  obtain ⟨items, -, hbuilt⟩ := exists_of_bind_eq_ok hm
  obtain ⟨nodes, span, -, -, hdata⟩ := Rule.elements_of_buildProgram hbuilt
  exact ⟨.block nodes span, hdata⟩

theorem valid_of_elsewhere {ls ls' : List Lexeme}
    (h : List.Forall₂ (Lexeme.Alike Token.Elsewhere) ls ls') :
    (∀ l ∈ ls, l.token.IsValid) ∧ ∀ l ∈ ls', l.token.IsValid := by
  induction h with
  | nil => exact ⟨List.forall_mem_nil _, List.forall_mem_nil _⟩
  | cons hl _ ih =>
    exact ⟨List.forall_mem_cons.mpr ⟨hl.token.valid, ih.1⟩,
      List.forall_mem_cons.mpr ⟨hl.token.valid_other, ih.2⟩⟩

/-- The token at its place, with nothing but its value for its text. -/
def Lexeme.plain (l : Lexeme) : Lexeme := { l with token := { l.token with text := none } }

theorem forall₂_plain {ls ls' : List Lexeme}
    (h : List.Forall₂ (Lexeme.Alike Token.Elsewhere) ls ls') :
    List.Forall₂ (Lexeme.Alike Token.Elsewhere) (ls.map Lexeme.plain) ls := by
  rw [List.forall₂_map_left_iff]
  induction h with
  | nil => exact .nil
  | cons hl _ ih => exact .cons ⟨rfl, ⟨rfl, hl.token.valid, hl.token.valid⟩⟩ ih

theorem proper_plain {ls ls' : List Lexeme}
    (h : List.Forall₂ (Lexeme.Alike Token.Elsewhere) ls ls')
    (hspelled : ∀ l ∈ ls, l.kind.pattern.Matches l.text) :
    ∀ l ∈ ls.map Lexeme.plain, l.Proper := by
  induction h with
  | nil => exact fun l hl => nomatch hl
  | cons hl _ ih =>
    obtain ⟨hfirst, hrest⟩ := List.forall_mem_cons.mp hspelled
    rw [List.map_cons]
    exact List.forall_mem_cons.mpr
      ⟨⟨hl.token.valid.1, hl.token.valid.2, rfl, hfirst⟩, ih hrest⟩

section Decisions

open Grammar

variable {ls ls' : List Lexeme}

/-- Where the tokens stand, the grammar accepts or rejects them at the same place. -/
theorem run_elsewhere (h : List.Forall₂ (Lexeme.Alike Token.Elsewhere) ls ls') :
    (∃ i, (program 0 ls).furthest = i ∧ (program 0 ls').furthest = i ∧
      program.run ls = .error ls[i]? ∧ program.run ls' = .error ls'[i]?) ∨
    ∃ m m', program.run ls = .ok m ∧ program.run ls' = .ok m' := by
  cases hrun : program.run ls with
  | ok m =>
    obtain ⟨m', hm', -⟩ := program_tracks.run h hrun
    exact .inr ⟨m, m', rfl, hm'⟩
  | error found =>
    left
    obtain ⟨hnone, rfl⟩ := Parser.run_eq_error_iff.mp hrun
    obtain ⟨hfar, hresults⟩ := program_tracks 0 ls ls' (Nat.le_refl _) (Nat.le_refl _)
      (alikeUpTo_of_forall₂ h)
    refine ⟨_, rfl, hfar, rfl, Parser.run_eq_error_iff.mpr ⟨?_, by rw [hfar]⟩⟩
    rw [hnone] at hresults
    generalize (program 0 ls').result = result at hresults
    cases hresults
    rfl

variable {m m' : Match} {arith arith' : Arithmetic}

/-- What both are accepted as reduces to trees that differ in positions only, or to one error. -/
theorem reduce_elsewhere
    (h : List.Forall₂ (Lexeme.Alike (Token.EndsElsewhere arith arith')) ls ls')
    (hm : program.run ls = .ok m) (hm' : program.run ls' = .ok m') :
    (∃ e, m.reduce arith = .error e ∧ m'.reduce arith' = .error e) ∨
    ∃ n n', m.reduce arith = .ok (.node n) ∧ m'.reduce arith' = .ok (.node n') ∧
      n.erased = n'.erased := by
  obtain ⟨m₁, hm₁, halike⟩ := program_tracks.run h hm
  obtain rfl : m' = m₁ := Except.ok.inj (hm'.symm.trans hm₁)
  have houtcomes := halike.reduce tokensRelate_elsewhere
  cases hdata : m.reduce arith with
  | error e =>
    rw [hdata] at houtcomes
    generalize m'.reduce arith' = outcome at houtcomes
    cases houtcomes
    exact .inl ⟨e, rfl, rfl⟩
  | ok data =>
    rw [hdata] at houtcomes
    cases hdata' : m'.reduce arith' with
    | error e =>
      rw [hdata'] at houtcomes
      cases houtcomes
    | ok data' =>
      obtain ⟨n, rfl⟩ := (program_sound hm).exists_node hdata
      obtain ⟨n', rfl⟩ := (program_sound hm').exists_node hdata'
      rw [hdata'] at houtcomes
      cases houtcomes.of_ok rfl rfl with
      | node hnode => exact .inr ⟨n, n', rfl, rfl, hnode.erased_eq⟩

/-- What is accepted reduces to a tree if the values are texts of their kinds. -/
theorem exists_node_of_spelled (h : List.Forall₂ (Lexeme.Alike Token.Elsewhere) ls ls')
    (hm : program.run ls = .ok m)
    (hends : ∀ l ∈ ls, ∃ stop, l.token.endPosition arith = .ok stop)
    (hspelled : ∀ l ∈ ls, l.kind.pattern.Matches l.text) :
    ∃ n, m.reduce arith = .ok (.node n) := by
  -- without their raw texts the tokens are ones that a lexer may give, and additions are exact
  have hproper := proper_plain h hspelled
  have hplain : List.Forall₂ (Lexeme.Alike (Token.EndsElsewhere .exact arith))
      (ls.map Lexeme.plain) ls := by
    refine forall₂_ends (forall₂_plain h) (fun l hl => ?_) hends
    obtain ⟨start, -, hstop⟩ := (hproper l hl).position
    exact ⟨_, hstop⟩
  obtain ⟨m₀, hm₀⟩ : ∃ m₀, program.run (ls.map Lexeme.plain) = .ok m₀ := by
    rcases run_elsewhere (forall₂_plain h) with ⟨i, -, -, -, herror⟩ | ⟨m₀, -, hm₀, -⟩
    · rw [hm] at herror
      cases herror
    · exact ⟨m₀, hm₀⟩
  obtain ⟨root, hroot, -⟩ := (program_sound hm₀).builds hproper
  rcases reduce_elsewhere hplain hm₀ hm with ⟨e, he, -⟩ | ⟨n₀, n, -, hn, -⟩
  · rw [hroot] at he
    cases he
  · exact ⟨n, hn⟩

/-- **Coordinates decide nothing.** Of two lists with the same kinds and values, and any valid
coordinates, both pass the nesting check or fail it at the same place; both are rejected by the
grammar at the same place or both are accepted; and what is accepted reduces to trees that are the
same without positions, or to one error. There is a tree if the values are texts of their kinds.
Where additions are checked, the ends of the tokens must have words for coordinates. -/
theorem decisions_without_coordinates
    (h : List.Forall₂ (Lexeme.Alike Token.Elsewhere) ls ls') :
    ((Nesting.tooDeep? ls = none ∧ Nesting.tooDeep? ls' = none) ∨
      ∃ i, Nesting.StopsAt ls i ∧ Nesting.StopsAt ls' i ∧
        Nesting.tooDeep? ls = ls[i]? ∧ Nesting.tooDeep? ls' = ls'[i]?) ∧
    ((∃ i, (program 0 ls).furthest = i ∧ (program 0 ls').furthest = i ∧
        program.run ls = .error ls[i]? ∧ program.run ls' = .error ls'[i]?) ∨
      ∃ m m', program.run ls = .ok m ∧ program.run ls' = .ok m' ∧
        ∀ arith : Arithmetic,
          (arith = .checked → (∀ l ∈ ls, l.token.EndFits) ∧ ∀ l ∈ ls', l.token.EndFits) →
          ((∃ e, m.reduce arith = .error e ∧ m'.reduce arith = .error e) ∨
            ∃ n n', m.reduce arith = .ok (.node n) ∧ m'.reduce arith = .ok (.node n') ∧
              n.erased = n'.erased) ∧
          ((∀ l ∈ ls, l.kind.pattern.Matches l.text) → ∃ n, m.reduce arith = .ok (.node n))) := by
  refine ⟨?_, ?_⟩
  · rcases Nesting.tooDeepFrom?_of_kinds (fun _ _ hl => hl.kind) h with
      hnone | ⟨i, hi, hdeep, hdeep', hbefore, hbefore', hstop, hstop'⟩
    · exact .inl hnone
    · exact .inr ⟨i, ⟨hi, hbefore, hstop⟩, ⟨h.length_eq ▸ hi, hbefore', hstop'⟩, hdeep, hdeep'⟩
  · rcases run_elsewhere h with hrejected | ⟨m, m', hm, hm'⟩
    · exact .inl hrejected
    · refine .inr ⟨m, m', hm, hm', fun arith hfits => ?_⟩
      obtain ⟨hvalid, hvalid'⟩ := valid_of_elsewhere h
      have hends : ∀ l ∈ ls, ∃ stop, l.token.endPosition arith = .ok stop :=
        fun l hl => (hvalid l hl).exists_end fun harith => (hfits harith).1 l hl
      have hends' : ∀ l ∈ ls', ∃ stop, l.token.endPosition arith = .ok stop :=
        fun l hl => (hvalid' l hl).exists_end fun harith => (hfits harith).2 l hl
      exact ⟨reduce_elsewhere (forall₂_ends h hends hends') hm hm',
        exists_node_of_spelled h hm hends⟩

/-- An assignment on one line, and the same assignment on two lines, where additions are checked. -/
theorem decisions_without_coordinates_sample :
    ∃ ls ls' n n', lex "a = 1;" = .ok ls ∧ lex "a =\n1;" = .ok ls' ∧
      (∃ m, program.run ls = .ok m ∧ m.reduce .checked = .ok (.node n)) ∧
      (∃ m', program.run ls' = .ok m' ∧ m'.reduce .checked = .ok (.node n')) ∧
      n.erased = n'.erased := by
  let ls : List Lexeme :=
    [⟨.identifier, { value := "a", line := 1, column := 1, offset := 0 }⟩,
      ⟨.assign, { value := "=", line := 1, column := 3, offset := 2 }⟩,
      ⟨.number, { value := "1", line := 1, column := 5, offset := 4 }⟩,
      ⟨.semicolon, { value := ";", line := 1, column := 6, offset := 5 }⟩]
  let ls' : List Lexeme :=
    [⟨.identifier, { value := "a", line := 1, column := 1, offset := 0 }⟩,
      ⟨.assign, { value := "=", line := 1, column := 3, offset := 2 }⟩,
      ⟨.number, { value := "1", line := 2, column := 1, offset := 4 }⟩,
      ⟨.semicolon, { value := ";", line := 2, column := 2, offset := 5 }⟩]
  have hlex : lex "a = 1;" = .ok ls := by decide +kernel
  have hlex' : lex "a =\n1;" = .ok ls' := by decide +kernel
  have halike : List.Forall₂ (Lexeme.Alike Token.Elsewhere) ls ls' :=
    .cons ⟨rfl, rfl, by decide, by decide⟩ (.cons ⟨rfl, rfl, by decide, by decide⟩
      (.cons ⟨rfl, rfl, by decide, by decide⟩ (.cons ⟨rfl, rfl, by decide, by decide⟩ .nil)))
  have hfits : (∀ l ∈ ls, l.token.EndFits) ∧ ∀ l ∈ ls', l.token.EndFits := by
    constructor <;> simp only [ls, ls', List.forall_mem_cons, List.not_mem_nil, false_implies,
      implies_true, and_true] <;> refine ⟨?_, ?_, ?_, ?_⟩ <;> rintro stop ⟨⟩ <;> decide
  have haccepted : (program 0 ls).result.isSome := by decide +kernel
  obtain ⟨-, ⟨i, -, -, herror, -⟩ | ⟨m, m', hm, hm', hreduce⟩⟩ :=
    decisions_without_coordinates halike
  · rw [(Parser.run_eq_error_iff.mp herror).1] at haccepted
    cases haccepted
  · obtain ⟨htrees, htree⟩ := hreduce .checked fun _ => hfits
    obtain ⟨n₀, hn₀⟩ := htree fun l hl => (proper_of_lex hlex l hl).spelled
    rcases htrees with ⟨e, he, -⟩ | ⟨n, n', hn, hn', herased⟩
    · rw [hn₀] at he
      cases he
    · exact ⟨ls, ls', n, n', hlex, hlex', ⟨m, hm, hn⟩, ⟨m', hm', hn'⟩, herased⟩

/-- The grammar reads kinds and the rules read values, so tokens are accepted of which no tree
can be built: here, at two places, a truth value that is spelled as something else. -/
theorem accepted_without_tree :
    ∃ (ls ls' : List Lexeme) (m m' : Match), List.Forall₂ (Lexeme.Alike Token.Elsewhere) ls ls' ∧
      program.run ls = .ok m ∧ program.run ls' = .ok m' ∧
      (∀ arith data, m.reduce arith ≠ .ok data) ∧ ∀ arith data, m'.reduce arith ≠ .ok data := by
  let ls : List Lexeme :=
    [⟨.identifier, { value := "a", line := 1, column := 1, offset := 0 }⟩,
      ⟨.assign, { value := "=", line := 1, column := 3, offset := 2 }⟩,
      ⟨.trueWord, { value := "yes", line := 1, column := 5, offset := 4 }⟩,
      ⟨.semicolon, { value := ";", line := 1, column := 9, offset := 8 }⟩]
  let ls' : List Lexeme :=
    [⟨.identifier, { value := "a", line := 1, column := 1, offset := 0 }⟩,
      ⟨.assign, { value := "=", line := 1, column := 3, offset := 2 }⟩,
      ⟨.trueWord, { value := "yes", line := 2, column := 1, offset := 4 }⟩,
      ⟨.semicolon, { value := ";", line := 2, column := 5, offset := 8 }⟩]
  have halike : List.Forall₂ (Lexeme.Alike Token.Elsewhere) ls ls' :=
    .cons ⟨rfl, rfl, by decide, by decide⟩ (.cons ⟨rfl, rfl, by decide, by decide⟩
      (.cons ⟨rfl, rfl, by decide, by decide⟩ (.cons ⟨rfl, rfl, by decide, by decide⟩ .nil)))
  have hfails : ∀ us : List Lexeme,
      ((program.run us).toOption.map fun m => [Arithmetic.exact, .checked, .wrapping].all
        fun arith => (m.reduce arith).toOption.isNone) = some true →
      ∃ m, program.run us = .ok m ∧ ∀ arith data, m.reduce arith ≠ .ok data := by
    intro us hus
    cases hrun : program.run us with
    | error found =>
      rw [hrun] at hus
      cases hus
    | ok m =>
      refine ⟨m, rfl, fun arith data hdata => ?_⟩
      rw [hrun] at hus
      have hall := List.all_eq_true.mp (Option.some.inj hus) arith (by cases arith <;> decide)
      simp [Except.toOption, hdata] at hall
  obtain ⟨m, hm, hfail⟩ := hfails ls (by decide +kernel)
  obtain ⟨m', hm', hfail'⟩ := hfails ls' (by decide +kernel)
  exact ⟨ls, ls', m, m', halike, hm, hm', hfail, hfail'⟩

end Decisions
end OpenScad
