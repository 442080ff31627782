/-
# Precedence in matches

The match of a phrase holds exactly the tokens of the phrase, in order, and it
groups them by precedence (`matches_by_precedence`). A binary operation of a
level has a tighter operator at the root of its right operand and one that is
not looser at the root of its left operand; a prefix operator has another
prefix operator there, or none. Parentheses hide the operators inside them.

A match holds tokens without their kinds, and two tokens of different kinds may
look the same. So a match is read beside the tokens it was found on: each part
of a rule or a group goes with as many of them as it has leaves.

Key definitions: `Match.rootOperator`, `Match.GroupsOperands`,
`Match.RespectsPrecedence`.
Key theorems: `Parses.spells`, `matches_by_precedence`.
-/
import OpenScad.Proofs.Grammar.Longest

namespace OpenScad

/-! ### The operator at the root of an expression -/

/-- An operator with its place: before an operand or between two. -/
inductive RootOperator where
  | sign (o : Lexeme)
  | between (o : Lexeme)

/-- A prefix operator binds tighter than every level, a binary operator if it belongs to one of
the first `k` levels. -/
def RootOperator.WithinLevels (k : Nat) : RootOperator → Prop
  | sign _ => True
  | between o => o.kind ∈ Grammar.tighter k

namespace Match

/-- The operator of the first operation of more than one part, below operations of one part.
The match is read beside its tokens `u`. -/
def rootOperator : Match → List Lexeme → Option RootOperator
  | rule .operation [m], u => m.rootOperator u
  | rule .operation [_, _], u => u.head?.map .sign
  | rule .operation [left, _, _], u => u[left.leaves.length]?.map .between
  | _, _ => none

/-! ### Operands and their operators -/

/-- The parts of an operation: a single operand; a prefix operator before an operand, at whose
root stands another prefix operator or none; or a binary operator of a level `k` between two
operands, at whose roots no looser operator stands, and on the right side none of level `k`. -/
def GroupsOperands : List Match → List Lexeme → Prop
  | [_], _ => True
  | [op, operand], u => ∃ o v, u = o :: v ∧ op = (token o.token).grouped ∧
      o.kind ∈ Grammar.prefixes ∧ ∀ r ∈ operand.rootOperator v, ∃ other, r = .sign other
  | [left, op, right], u => ∃ v o w k, u = v ++ o :: w ∧ left.leaves = v.map (·.token) ∧
      op = (token o.token).grouped ∧ o.kind ∈ Grammar.operators k ∧
      (∀ r ∈ left.rootOperator v, r.WithinLevels (k + 1)) ∧
      ∀ r ∈ right.rootOperator w, r.WithinLevels k
  | _, _ => False

mutual

/-- Every operation in the match groups its operands by precedence. -/
def RespectsPrecedence : Match → List Lexeme → Prop
  | rule .operation parts, u => GroupsOperands parts u ∧ AllRespectPrecedence parts u
  | rule _ parts, u => AllRespectPrecedence parts u
  | group parts, u => AllRespectPrecedence parts u
  | token _, _ => True
  | absent, _ => True

/-- Every operation in the matches groups its operands by precedence; the tokens are those of
the matches, one behind the other. -/
def AllRespectPrecedence : List Match → List Lexeme → Prop
  | [], _ => True
  | part :: parts, u => part.RespectsPrecedence (u.take part.leaves.length) ∧
      AllRespectPrecedence parts (u.drop part.leaves.length)

end

/-! ### Matches that spell out tokens by precedence -/

/-- The match holds exactly the tokens, in order, and groups them by precedence. -/
structure Spells (m : Match) (u : List Lexeme) : Prop where
  leaves : m.leaves = u.map (·.token)
  precedence : m.RespectsPrecedence u

/-- The matches hold exactly the tokens, in order, and group them by precedence. -/
structure AllSpell (ms : List Match) (u : List Lexeme) : Prop where
  leaves : leavesAll ms = u.map (·.token)
  precedence : AllRespectPrecedence ms u

section Spells

variable {m : Match} {ms : List Match} {u v : List Lexeme} {r : Rule}

theorem spells_token (l : Lexeme) : (token l.token).Spells [l] := ⟨by simp, trivial⟩

theorem spells_absent : absent.Spells [] := ⟨by simp, trivial⟩

theorem allSpell_nil : AllSpell [] [] := ⟨by simp, trivial⟩

theorem Spells.cons (h : m.Spells u) (hs : AllSpell ms v) : AllSpell (m :: ms) (u ++ v) := by
  have hlength : m.leaves.length = u.length := by rw [h.leaves, List.length_map]
  refine ⟨by rw [leavesAll, h.leaves, hs.leaves, List.map_append], ?_⟩
  rw [AllRespectPrecedence, hlength, List.take_left, List.drop_left]
  exact ⟨h.precedence, hs.precedence⟩

theorem Spells.lone (h : m.Spells u) : AllSpell [m] u := by
  have := h.cons allSpell_nil
  rwa [List.append_nil] at this

theorem AllSpell.group (h : AllSpell ms u) : (Match.group ms).Spells u :=
  ⟨by rw [Match.leaves, h.leaves], by rw [RespectsPrecedence]; exact h.precedence⟩

theorem Spells.grouped (h : m.Spells u) : m.grouped.Spells u := h.lone.group

theorem AllSpell.rule (h : AllSpell ms u) (hr : r ≠ .operation) : (Match.rule r ms).Spells u := by
  refine ⟨by rw [Match.leaves, h.leaves], ?_⟩
  have hparts : (Match.rule r ms).RespectsPrecedence u = AllRespectPrecedence ms u := by
    cases r <;> first | rfl | exact absurd rfl hr
  rw [hparts]
  exact h.precedence

theorem AllSpell.operation (h : AllSpell ms u) (hg : GroupsOperands ms u) :
    (Match.rule .operation ms).Spells u :=
  ⟨by rw [Match.leaves, h.leaves], by rw [RespectsPrecedence]; exact ⟨hg, h.precedence⟩⟩

/-- A statement around a match is no operation. -/
theorem Spells.statement (h : m.Spells u) : (Match.rule .statement [m.grouped]).Spells u :=
  h.grouped.lone.rule (by decide)

end Spells

end Match

/-! ### The matches of phrases -/

namespace Grammar

open Match

/-- The operator at the root of the match of a phrase, as the phrase's nonterminal allows it. -/
def RootFits : Nonterminal → Match → List Lexeme → Prop
  | .primary, m, u => m.rootOperator u = none
  | .level k, m, u => ∀ r ∈ m.rootOperator u, r.WithinLevels k
  | .statement, _, _ => True

theorem allSpell_parts {parts : List (List Lexeme × Match)} (h : ∀ x ∈ parts, x.2.Spells x.1) :
    AllSpell (parts.map (·.2)) (parts.map (·.1)).flatten := by
  induction parts with
  | nil => exact allSpell_nil
  | cons x parts ih =>
    exact (h x List.mem_cons_self).cons (ih fun y hy => h y (List.mem_cons_of_mem x hy))

theorem spells_ofOption : ∀ semicolon : Option Lexeme,
    (Match.ofOption (semicolon.map (.token ·.token))).Spells semicolon.toList
  | none => spells_absent
  | some l => spells_token l

theorem ne_operation {rules : List (TokenKind × Rule)} {kind : TokenKind} {r : Rule}
    (hrules : .operation ∉ rules.map (·.2)) (h : (kind, r) ∈ rules) : r ≠ .operation := by
  rintro rfl
  exact hrules (List.mem_map_of_mem h)

/-- The match of a phrase spells out the phrase by precedence. -/
theorem Parses.spells {n : Nonterminal} {u : List Lexeme} {m : Match} (h : Parses n u m) :
    m.Spells u ∧ RootFits n m u := by
  induction h with
  | @literal l r rule =>
    have hr : r ≠ .operation := ne_operation (by decide) rule
    exact ⟨((spells_token l).lone.rule hr).grouped, rfl⟩
  | @parentheses o c u m _ _ _ ih =>
    have parts := (spells_token o).cons (ih.1.cons (spells_token c).lone)
    exact ⟨(parts.rule (by decide)).grouped, rfl⟩
  | @operand u m _ ih =>
    obtain ⟨hm, hroot⟩ := ih
    refine ⟨hm.lone.operation trivial, fun r hr => ?_⟩
    rw [rootOperator, hroot] at hr
    cases hr
  | @unary o u m sign _ ih =>
    obtain ⟨hm, hroot⟩ := ih
    have parts := (spells_token o).grouped.cons hm.lone
    refine ⟨parts.operation ⟨o, u, rfl, rfl, sign, fun r hr => ?_⟩, fun r hr => ?_⟩
    · -- within no level of binary operators there are only prefix operators
      cases r with
      | sign other => exact ⟨other, rfl⟩
      | between other => exact absurd (hroot _ hr) List.not_mem_nil
    · rw [rootOperator] at hr
      cases hr
      trivial
  | @tighter k u m _ ih =>
    obtain ⟨hm, hroot⟩ := ih
    refine ⟨hm.lone.operation trivial, fun r hr => ?_⟩
    rw [rootOperator] at hr
    cases r with
    | sign other => trivial
    | between other => exact List.mem_append_left _ (hroot _ hr)
  | @binary k u v o a b _ sign _ ihl ihr =>
    obtain ⟨hl, hlroot⟩ := ihl
    obtain ⟨hr, hrroot⟩ := ihr
    have parts := hl.cons ((spells_token o).grouped.cons hr.lone)
    refine ⟨parts.operation ⟨u, o, v, k, rfl, hl.leaves, rfl, sign, hlroot, hrroot⟩,
      fun r hr => ?_⟩
    have hop : (u ++ o :: v)[a.leaves.length]? = some o := by
      rw [hl.leaves, List.length_map, List.getElem?_append_right (Nat.le_refl _), Nat.sub_self]
      rfl
    rw [rootOperator, hop] at hr
    cases hr
    exact List.mem_append_right _ sign
  | @assignment name equals semicolon u m _ _ _ _ ih =>
    have identifier := (spells_token name).lone.rule (r := .identifier) (by decide)
    have parts := identifier.cons ((spells_token equals).cons (ih.1.cons
      (spells_token semicolon).lone))
    exact ⟨(parts.rule (by decide)).statement, trivial⟩
  | @path word file semicolon r rule _ _ =>
    have hr : r ≠ .operation := ne_operation (by decide) rule
    have path := (spells_token file).lone.rule (r := .path) (by decide)
    have parts := (spells_token word).cons (path.cons (spells_ofOption semicolon).lone)
    exact ⟨(parts.rule hr).statement, trivial⟩
  | @block o c parts _ _ _ ih =>
    have statements := (allSpell_parts fun x hx => (ih x hx).1).group
    have parts := (spells_token o).cons (statements.cons (spells_token c).lone)
    exact ⟨(parts.rule (by decide)).statement, trivial⟩
  | @comment l r rule =>
    have hr : r ≠ .operation := ne_operation (by decide) rule
    exact ⟨((spells_token l).lone.rule hr).statement, trivial⟩

theorem IsProgram.spells {ls : List Lexeme} {m : Match} (h : IsProgram ls m) : m.Spells ls := by
  obtain ⟨parts, hparts, rfl, rfl⟩ := h
  exact (allSpell_parts fun x hx => (hparts x hx).spells.1).group.lone.rule (by decide)

/-- What the program parser recognises is a program with its match. -/
theorem program_recognises : program.Sound IsProgram := by
  refine statement_sound.many.bind fun u ms hms => ?_
  have atEnd_sound : Parser.atEnd.Sound fun v _ => v = [] := by
    intro i ls a j rest hr
    cases ls with
    | nil =>
      cases hr
      exact ⟨[], rfl, rfl, rfl⟩
    | cons l ls => cases hr
  refine atEnd_sound.map ?_
  rintro _ _ rfl
  obtain ⟨parts, hparts, rfl, rfl⟩ := hms
  exact ⟨parts, hparts, List.append_nil _, rfl⟩

/-- **A match holds the tokens it was found on, in order, and groups them by precedence**,
whichever of the three parsers gives it. -/
theorem matches_by_precedence :
    (expression.Sound fun u m => m.leaves = u.map (·.token) ∧ m.RespectsPrecedence u) ∧
    (statement.Sound fun u m => m.leaves = u.map (·.token) ∧ m.RespectsPrecedence u) ∧
    program.Sound fun u m => m.leaves = u.map (·.token) ∧ m.RespectsPrecedence u := by
  have of_spells {u : List Lexeme} {m : Match} (h : m.Spells u) :
      m.leaves = u.map (·.token) ∧ m.RespectsPrecedence u := ⟨h.leaves, h.precedence⟩
  exact ⟨expression_sound.mono fun u m h => of_spells h.spells.1,
    statement_sound.mono fun u m h => of_spells h.spells.1,
    program_recognises.mono fun u m h => of_spells h.spells⟩

end Grammar
end OpenScad
