/-
# Shapes of texts of a pattern

What the pattern of a kind says about the texts of tokens: single characters,
fixed texts and texts between marks are read off the pattern, and two questions
are decided on the pattern alone, namely whether a text can be empty and
whether it can end with a given character.

Key definitions: `Pattern.avoidsLast`.
Key theorems: `Pattern.matches_literal`, `Pattern.getLast?_ne_of_avoidsLast`.
-/
import OpenScad.Token.Kind

namespace OpenScad
namespace Pattern

/-! ### Texts of single constructors -/

theorem matches_done {s : List Char} : done.Matches s ↔ s = [] := by
  constructor
  · intro h
    cases h
    rfl
  · rintro rfl
    exact .done

theorem matches_one {test : Char → Bool} {s : List Char} :
    (one test).Matches s ↔ ∃ c, s = [c] ∧ test c = true := by
  constructor
  · intro h
    cases h with
    | one accepted => exact ⟨_, rfl, accepted⟩
  · rintro ⟨c, rfl, h⟩
    exact .one h

theorem matches_sequence {a b : Pattern} {s : List Char} :
    (sequence a b).Matches s ↔ ∃ u v, s = u ++ v ∧ a.Matches u ∧ b.Matches v := by
  constructor
  · intro h
    cases h with
    | sequence m n => exact ⟨_, _, rfl, m, n⟩
  · rintro ⟨u, v, rfl, m, n⟩
    exact .sequence m n

/-- The only text of a literal pattern is its own. -/
theorem matches_literal : ∀ {cs s : List Char}, (literal cs).Matches s ↔ s = cs
  | [], s => matches_done
  | c :: cs, s => by
    rw [literal, matches_sequence]
    constructor
    · rintro ⟨u, v, rfl, hu, hv⟩
      obtain ⟨d, rfl, hd⟩ := matches_one.mp hu
      rw [matches_literal.mp hv, beq_iff_eq.mp hd]
      rfl
    · rintro rfl
      exact ⟨[c], cs, rfl, .one (beq_self_eq_true c), matches_literal.mpr rfl⟩

theorem matches_oneOf_singleton {c : Char} {s : List Char} :
    (TokenKind.oneOf [c]).Matches s ↔ s = [c] := by
  rw [TokenKind.oneOf, matches_one]
  constructor
  · rintro ⟨d, rfl, h⟩
    have hd : d = c := by simpa using h
    rw [hd]
  · rintro rfl
    exact ⟨c, rfl, by simp⟩

theorem forall_of_matches_many {test : Char → Bool} {s : List Char}
    (h : (many (one test)).Matches s) : ∀ c ∈ s, test c = true := by
  generalize hp : many (one test) = p at h
  induction h with
  | none => simp
  | more m n _ ih =>
    cases hp
    obtain ⟨d, rfl, hd⟩ := matches_one.mp m
    intro c hc
    rcases List.mem_cons.mp hc with rfl | hc
    · exact hd
    · exact ih rfl c hc
  | _ => cases hp

/-- A repeated character ends with that character. -/
theorem exists_last_of_matches_some {c : Char} {s : List Char}
    (h : (Pattern.some (TokenKind.oneOf [c])).Matches s) : ∃ t, s = t ++ [c] := by
  obtain ⟨u, v, rfl, hu, hv⟩ := matches_sequence.mp h
  rw [matches_oneOf_singleton.mp hu]
  have hall := forall_of_matches_many hv
  rcases List.eq_nil_or_concat v with rfl | ⟨t, d, rfl⟩
  · exact ⟨[], rfl⟩
  · have hd : d = c := by simpa using hall d (by simp)
    exact ⟨c :: t, by rw [hd]; simp⟩

theorem ne_nil_of_matches {p : Pattern} {s : List Char} (hp : p.nullable = false)
    (h : p.Matches s) : s ≠ [] := by
  rintro rfl
  rw [(nullable_iff p).mpr h] at hp
  cases hp

/-! ### Last characters -/

/-- A test that only succeeds if no text of the pattern ends with the character. -/
def avoidsLast (c : Char) : Pattern → Bool
  | nothing => true
  | done => true
  | one test => !test c
  | either a b => a.avoidsLast c && b.avoidsLast c
  | sequence a b => b.avoidsLast c && (!b.nullable || a.avoidsLast c)
  | many a => a.avoidsLast c

theorem getLast?_ne_of_avoidsLast {c : Char} {p : Pattern} {s : List Char}
    (hp : p.avoidsLast c = true) (h : p.Matches s) : s.getLast? ≠ Option.some c := by
  induction h with
  | done => simp
  | @one test d accepted =>
    simp only [List.getLast?_singleton, ne_eq, Option.some.injEq]
    rintro rfl
    simp [avoidsLast, accepted] at hp
  | left m ih => exact ih (Bool.and_eq_true_iff.mp hp).1
  | right m ih => exact ih (Bool.and_eq_true_iff.mp hp).2
  | @sequence a b s t m n ihm ihn =>
    obtain ⟨hb, ha⟩ := Bool.and_eq_true_iff.mp hp
    rw [List.getLast?_append]
    cases hl : t.getLast? with
    | some d => simpa [hl] using ihn hb
    | none =>
      rw [List.getLast?_eq_none_iff] at hl
      subst hl
      have hn : b.nullable = true := (nullable_iff b).mpr n
      rw [hn] at ha
      simpa using ihm ha
  | none => simp
  | @more a s t m n ihm ihn =>
    rw [List.getLast?_append]
    cases hl : t.getLast? with
    | some d => simpa [hl] using ihn hp
    | none => simpa using ihm hp

end Pattern

namespace TokenKind

/-! ### Texts of tokens -/

theorem pattern_nullable (kind : TokenKind) : kind.pattern.nullable = false := by
  cases kind <;> decide

/-- No token ends with a carriage return, so no token ends inside a line break. -/
theorem pattern_avoidsLast_cr (kind : TokenKind) : kind.pattern.avoidsLast '\r' = true := by
  cases kind <;> decide

theorem matches_string {s : List Char} (h : pattern .string |>.Matches s) :
    ∃ inner, s = ['"'] ++ (inner ++ ['"']) := by
  obtain ⟨u, v, rfl, hu, hv⟩ := Pattern.matches_sequence.mp h
  obtain ⟨q, inner, rfl, hq, -⟩ := Pattern.matches_sequence.mp hu
  rw [Pattern.matches_oneOf_singleton.mp hq, Pattern.matches_oneOf_singleton.mp hv]
  exact ⟨inner, rfl⟩

theorem matches_path {s : List Char} (h : pattern .path |>.Matches s) :
    ∃ inner, s = ['<'] ++ (inner ++ ['>']) := by
  obtain ⟨u, v, rfl, hu, hv⟩ := Pattern.matches_sequence.mp h
  obtain ⟨inner, w, rfl, -, hw⟩ := Pattern.matches_sequence.mp hv
  rw [Pattern.matches_oneOf_singleton.mp hu, Pattern.matches_oneOf_singleton.mp hw]
  exact ⟨inner, rfl⟩

theorem matches_lineComment {s : List Char} (h : pattern .lineComment |>.Matches s) :
    ∃ rest, s = ['/', '/'] ++ rest := by
  obtain ⟨u, v, rfl, hu, -⟩ := Pattern.matches_sequence.mp h
  rw [Pattern.matches_literal.mp hu]
  exact ⟨v, rfl⟩

theorem matches_blockComment {s : List Char} (h : pattern .blockComment |>.Matches s) :
    ∃ inner, s = ['/', '*'] ++ (inner ++ ['*', '/']) := by
  obtain ⟨u, v, rfl, hu, hv⟩ := Pattern.matches_sequence.mp h
  obtain ⟨front, w, rfl, -, hw⟩ := Pattern.matches_sequence.mp hv
  obtain ⟨stars, slash, rfl, hstars, hslash⟩ := Pattern.matches_sequence.mp hw
  obtain ⟨t, rfl⟩ := Pattern.exists_last_of_matches_some hstars
  rw [Pattern.matches_literal.mp hu, Pattern.matches_oneOf_singleton.mp hslash]
  exact ⟨front ++ t, by simp⟩

end TokenKind
end OpenScad
