/-
# The stages of parsing

A source that can be cut into tokens, does not nest too deep and is accepted by
the grammar always has a tree, which is a block: what the grammar accepts, the
rules never refuse (`parse_by_stage`). So the outcome of parsing is that of the
first stage that fails, and building is never the stage.
-/
import OpenScad.Proofs.Tree.Construction

namespace OpenScad

/-! ### Parsing, stage by stage -/

section Stages

variable {source : String} {ls : List Lexeme}

theorem parse_of_lex_error {e : LexError} (h : lex source = .error e) :
    parse source = .error (.lexical e) := by
  rw [parse, h]
  rfl

theorem parse_of_tooDeep {l : Lexeme} (h : lex source = .ok ls)
    (hdeep : Nesting.tooDeep? ls = some l) :
    parse source = .error (.tooDeep Nesting.limit l.token.position.toOption) := by
  have hm : matchProgram ls = .error (.tooDeep Nesting.limit l.token.position.toOption) := by
    rw [matchProgram, hdeep]
  rw [parse, h]
  show (matchProgram ls >>= _) = _
  rw [hm]
  rfl

theorem parse_of_syntax_error {found : Option Lexeme} (h : lex source = .ok ls)
    (hdeep : Nesting.tooDeep? ls = none) (hrun : Grammar.program.run ls = .error found) :
    parse source = .error (.ofFound found) := by
  have hm : matchProgram ls = .error (.ofFound found) := by
    rw [matchProgram, hdeep, hrun]
    rfl
  rw [parse, h]
  show (matchProgram ls >>= _) = _
  rw [hm]
  rfl

/-- The tokens of a source whose match the grammar gives are those of a program's tree. -/
theorem parse_of_match {m : Match} (h : lex source = .ok ls) (hdeep : Nesting.tooDeep? ls = none)
    (hrun : Grammar.program.run ls = .ok m) :
    ∃ root, m.reduce .exact = .ok (.node root) ∧ parse source = .ok root ∧
      Grammar.BuildsProgram ls root := by
  obtain ⟨root, hreduce, hbuilds⟩ :=
    (Grammar.program_sound hrun).builds (proper_of_lex h)
  have hm : matchProgram ls = .ok m := by
    rw [matchProgram, hdeep, hrun]
    rfl
  refine ⟨root, hreduce, ?_, hbuilds⟩
  rw [parse, h]
  show (matchProgram ls >>= _) = _
  rw [hm]
  show (m.toNode).mapError _ = _
  rw [Match.toNode, hreduce]
  rfl

/-- A tree that parsing gives is the one to which the match of the source's tokens reduces. -/
theorem match_of_parse {root : Node} (h : parse source = .ok root) :
    ∃ ls m, lex source = .ok ls ∧ Nesting.tooDeep? ls = none ∧ Grammar.program.run ls = .ok m ∧
      m.reduce .exact = .ok (.node root) := by
  cases hlex : lex source with
  | error e =>
    rw [parse_of_lex_error hlex] at h
    cases h
  | ok ls =>
    cases hdeep : Nesting.tooDeep? ls with
    | some l =>
      rw [parse_of_tooDeep hlex hdeep] at h
      cases h
    | none =>
      cases hrun : Grammar.program.run ls with
      | error found =>
        rw [parse_of_syntax_error hlex hdeep hrun] at h
        cases h
      | ok m =>
        obtain ⟨root', hreduce, hparse, -⟩ := parse_of_match hlex hdeep hrun
        rw [hparse] at h
        cases h
        exact ⟨ls, m, rfl, hdeep, hrun, hreduce⟩

/-- A tree that parsing gives is the tree of the source's tokens. -/
theorem builds_of_parse {root : Node} (h : parse source = .ok root) :
    ∃ ls, lex source = .ok ls ∧ Grammar.BuildsProgram ls root := by
  obtain ⟨ls, m, hlex, hdeep, hrun, -⟩ := match_of_parse h
  obtain ⟨root', -, hparse, hbuilds⟩ := parse_of_match hlex hdeep hrun
  rw [hparse] at h
  cases h
  exact ⟨ls, hlex, hbuilds⟩

/-- A source of so many statements has a tree. -/
theorem exists_of_children_length {n : Nat}
    (h : (parse source).toOption.map (·.children.length) = some n) :
    ∃ root, parse source = .ok root ∧ root.children.length = n := by
  cases hparse : parse source with
  | error e =>
    rw [hparse] at h
    cases h
  | ok root =>
    rw [hparse] at h
    exact ⟨root, rfl, Option.some.inj h⟩

end Stages

/-! ### The outcome of parsing -/

theorem ofFound_ne_building (found : Option Lexeme) (cause : NodeError) :
    ParseError.ofFound found ≠ .building cause := by
  cases found <;> exact fun h => nomatch h

/-- **Parsing fails only where cutting, nesting or the grammar fails.** The first of these
stages that fails gives the error; if none does, the match of the grammar reduces to a
block, which is the tree of the source. No error ever comes from building nodes. -/
theorem parse_by_stage (source : String) :
    (match lex source with
      | .error e => parse source = .error (.lexical e)
      | .ok ls => match Nesting.tooDeep? ls with
        | some l => parse source = .error (.tooDeep Nesting.limit l.token.position.toOption)
        | none => match Grammar.program.run ls with
          | .error found => parse source = .error (.ofFound found)
          | .ok m => ∃ statements span, m.reduce .exact = .ok (.node (.block statements span)) ∧
              parse source = .ok (.block statements span)) ∧
    ((∃ root, parse source = .ok root) ↔ ∃ ls m, lex source = .ok ls ∧
      Nesting.tooDeep? ls = none ∧ Grammar.program.run ls = .ok m) ∧
    ∀ cause, parse source ≠ .error (.building cause) := by
  cases hlex : lex source with
  | error e =>
    have hparse := parse_of_lex_error hlex
    simp [hparse]
  | ok ls =>
    cases hdeep : Nesting.tooDeep? ls with
    | some l =>
      have hparse := parse_of_tooDeep hlex hdeep
      simp [hparse, hdeep]
    | none =>
      cases hrun : Grammar.program.run ls with
      | error found =>
        have hparse := parse_of_syntax_error hlex hdeep hrun
        simp [hparse, hdeep, hrun, ofFound_ne_building]
      | ok m =>
        obtain ⟨root, hreduce, hparse, parts, span, -, -, -, rfl⟩ := parse_of_match hlex hdeep hrun
        simp [hparse, hdeep, hrun, hreduce]

end OpenScad
