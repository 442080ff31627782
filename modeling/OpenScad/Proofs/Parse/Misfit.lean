/-
# Where syntax errors point

A source that the grammar rejects is fine up to some token: the tokens before
it can be completed to a program, and with it they cannot. This is the token
that the error shows. If there is none, the source ends too early: its tokens
can be completed to a program, but are none yet (`error_at_misfit`).

The tokens before the furthest failing test can be completed because every test
was made behind the front of some phrase. With the next token they cannot: the
parser would fail in the same way on what it has seen before and at that test,
whatever comes behind.

Key definitions: `Grammar.Accepted`.
Key theorems: `Grammar.begins_of_rejected`, `Grammar.not_begins_of_rejected`,
`error_at_misfit`.
-/
import OpenScad.Proofs.Grammar.Alike
import OpenScad.Proofs.Grammar.Fronts
import OpenScad.Proofs.Parse.Stages

namespace OpenScad

/-! ### Rejected tokens -/

namespace Parser

variable {α : Type} {p : Parser α} {ls : List Lexeme}

theorem run_eq_error_iff {found : Option Lexeme} :
    p.run ls = .error found ↔ (p 0 ls).result = none ∧ found = ls[(p 0 ls).furthest]? := by
  unfold run
  simp only
  split
  · rename_i hr
    simp [hr]
  · rename_i hr
    simp [hr, eq_comm]

theorem result_isSome_of_run {a : α} (h : p.run ls = .ok a) : (p 0 ls).result.isSome := by
  unfold run at h
  simp only at h
  split at h
  · rename_i hr
    rw [hr]
    rfl
  · cases h

end Parser

namespace Grammar

/-- The grammar accepts the tokens as a program. -/
def Accepted (ls : List Lexeme) : Prop := ∃ m, program.run ls = .ok m

theorem accepted_iff {ls : List Lexeme} : Accepted ls ↔ Repeats (Phrase .statement) ls := by
  constructor
  · rintro ⟨m, hm⟩
    obtain ⟨parts, hparts, hls, -⟩ := program_sound hm
    exact ⟨parts.map (·.1), List.forall_mem_map.mpr fun x hx => (hparts x hx).phrase, hls⟩
  · rintro ⟨parts, hparts, rfl⟩
    exact exists_run_program hparts

variable {ls : List Lexeme}

/-- The tokens before the furthest failing test can be completed to a program. -/
theorem begins_of_rejected (ls : List Lexeme) :
    (program 0 ls).furthest ≤ ls.length ∧ Begins Accepted (ls.take (program 0 ls).furthest) := by
  obtain ⟨k, hk, hle, hbegins⟩ := program_viable 0 ls
  rw [Nat.zero_add] at hk
  rw [hk]
  exact ⟨hle, hbegins.mono fun _ => accepted_iff.mpr⟩

theorem alike_of_take {i : Nat} (more : List Lexeme) (hi : i < ls.length) :
    AlikeUpTo (Lexeme.Alike Eq) 0 i ls (ls.take (i + 1) ++ more) := by
  intro k hk
  have hlt : k < (ls.take (i + 1)).length := by
    rw [List.length_take]
    omega
  have hsame : (ls.take (i + 1) ++ more)[k]? = ls[k]? := by
    rw [List.getElem?_append_left hlt, List.getElem?_take_of_lt (by omega)]
  rw [hsame, List.getElem?_eq_getElem (by omega)]
  exact .some ⟨rfl, rfl⟩

/-- With the token of the furthest failing test, no program goes on. -/
theorem not_begins_of_rejected (h : (program 0 ls).result = none)
    (hi : (program 0 ls).furthest < ls.length) :
    ¬ Begins Accepted (ls.take ((program 0 ls).furthest + 1)) := by
  rintro ⟨more, m, hm⟩
  obtain ⟨-, hresults⟩ := program_tracks 0 ls _ (Nat.le_refl _) (Nat.le_refl _)
    (alike_of_take more hi)
  have hsome := Parser.result_isSome_of_run hm
  rw [h] at hresults
  cases hr : (program 0 (ls.take ((program 0 ls).furthest + 1) ++ more)).result with
  | none =>
    rw [hr] at hsome
    cases hsome
  | some reply =>
    rw [hr] at hresults
    cases hresults

end Grammar

/-! ### The error of a source -/

section Misfit

open Grammar

variable {ls : List Lexeme} {found : Option Lexeme}

/-- **A syntax error shows the first token with which no program goes on.** The tokens before it
are the front of a program, but not with it. Where no token is found, the tokens are the front
of a program but no program. Parsing a source with these tokens reports the token's value and
position, or neither at the end. -/
theorem error_at_misfit (h : program.run ls = .error found) :
    (match found with
      | some l => ls[(program 0 ls).furthest]? = some l ∧
          Begins Accepted (ls.take (program 0 ls).furthest) ∧
          ¬ Begins Accepted (ls.take ((program 0 ls).furthest + 1))
      | none => (∃ more, more ≠ [] ∧ Accepted (ls ++ more)) ∧ ¬ Accepted ls) ∧
    ∀ source, lex source = .ok ls → Nesting.tooDeep? ls = none →
      match found with
      | some l => ∃ p, l.token.position = .ok p ∧
          parse source = .error (.unexpected (some l.token.value) (some p))
      | none => parse source = .error (.unexpected none none) := by
  obtain ⟨hnone, hfound⟩ := Parser.run_eq_error_iff.mp h
  obtain ⟨hle, hbegins⟩ := begins_of_rejected ls
  cases found with
  | some l =>
    have hlt : (program 0 ls).furthest < ls.length := (List.getElem?_eq_some_iff.mp hfound.symm).1
    refine ⟨⟨hfound.symm, hbegins, not_begins_of_rejected hnone hlt⟩, fun source hlex hdeep => ?_⟩
    have hmem : l ∈ ls := List.mem_of_getElem? hfound.symm
    obtain ⟨p, hp, -⟩ := (proper_of_lex hlex l hmem).position
    refine ⟨p, hp, ?_⟩
    rw [parse_of_syntax_error hlex hdeep h, ParseError.ofFound, hp]
    rfl
  | none =>
    have hend : ls.length ≤ (program 0 ls).furthest := List.getElem?_eq_none_iff.mp hfound.symm
    have hrejected : ¬ Accepted ls := by
      rintro ⟨m, hm⟩
      rw [h] at hm
      cases hm
    rw [List.take_of_length_le hend] at hbegins
    refine ⟨⟨?_, hrejected⟩, fun source hlex hdeep => parse_of_syntax_error hlex hdeep h⟩
    obtain ⟨more, hmore⟩ := hbegins
    refine ⟨more, ?_, hmore⟩
    rintro rfl
    rw [List.append_nil] at hmore
    exact hrejected hmore

/-- The semicolon in place of a value is the first token that does not fit. -/
theorem error_at_misfit_sample :
    ∃ ls l, program.run ls = .error (some l) ∧ ls[6]? = some l ∧
      Begins Accepted (ls.take 6) ∧ ¬ Begins Accepted (ls.take 7) ∧
      lex "a = 1;\nb = ;" = .ok ls ∧ Nesting.tooDeep? ls = none ∧
      ∃ p, parse "a = 1;\nb = ;" = .error (.unexpected (some ";") (some p)) := by
  have hcheck : (lex "a = 1;\nb = ;").toOption.map (fun ls => ((program 0 ls).result.isNone,
      (program 0 ls).furthest, ls[6]?.map (·.token.value), (Nesting.tooDeep? ls).isNone)) =
      some (true, 6, some ";", true) := by decide +kernel
  cases hlex : lex "a = 1;\nb = ;" with
  | error e =>
    rw [hlex] at hcheck
    cases hcheck
  | ok ls =>
    rw [hlex] at hcheck
    simp only [Except.toOption, Option.map_some, Option.some.injEq, Prod.mk.injEq,
      Option.isNone_iff_eq_none, Option.map_eq_some_iff] at hcheck
    obtain ⟨hnone, hfar, ⟨l, hl, hvalue⟩, hdeep⟩ := hcheck
    have hrun : program.run ls = .error (some l) :=
      Parser.run_eq_error_iff.mpr ⟨hnone, by rw [hfar, hl]⟩
    obtain ⟨⟨-, hbegins, hnot⟩, hparse⟩ := error_at_misfit hrun
    obtain ⟨p, -, hp⟩ := hparse _ hlex hdeep
    rw [hfar] at hbegins hnot
    exact ⟨ls, l, hrun, hl, hbegins, hnot, rfl, hdeep, p, hvalue ▸ hp⟩

end Misfit
end OpenScad
