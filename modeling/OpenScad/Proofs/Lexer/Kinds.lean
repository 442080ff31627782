/-
# Which kinds describe a text

No text belongs to two kinds of tokens, except that a keyword is also an
identifier (`TokenKind.eq_of_matches`). Where one of the two kinds has a single
text, the other pattern is run on that text. The other kinds differ in the
characters with which their texts begin, and the two kinds of comments in the
character behind it.

A block comment is what stands from its opening mark through the first closing
mark behind it (`TokenKind.matches_blockComment_iff`).

Key definitions: `Pattern.accepts`, `Pattern.begins`, `TokenKind.keywords`,
`TokenKind.ClosesAtEnd`.
Key theorems: `Pattern.matches_iff_accepts`, `TokenKind.eq_of_matches`,
`TokenKind.matches_blockComment_iff`.
-/
import OpenScad.Proofs.Lexer.Local

namespace OpenScad
namespace Pattern

/-! ### Running a pattern on a text -/

/-- Whether a pattern describes a text, character by character. -/
def accepts : Pattern → List Char → Bool
  | p, [] => p.nullable
  | p, c :: s => (p.after c).accepts s

theorem matches_iff_accepts {p : Pattern} {s : List Char} :
    p.Matches s ↔ p.accepts s = true := by
  induction s generalizing p with
  | nil => exact (nullable_iff p).symm
  | cons c s ih => rw [accepts, ← ih, matches_after]

instance (p : Pattern) (s : List Char) : Decidable (p.Matches s) :=
  decidable_of_iff _ matches_iff_accepts.symm

/-! ### First characters -/

/-- Whether a text of the pattern may begin with a character. -/
def begins (c : Char) : Pattern → Bool
  | nothing => false
  | done => false
  | one test => test c
  | either a b => a.begins c || b.begins c
  | sequence a b => a.begins c || (a.nullable && b.begins c)
  | many a => a.begins c

theorem begins_of_matches {p : Pattern} {c : Char} {s : List Char} (h : p.Matches (c :: s)) :
    p.begins c = true := by
  generalize ht : c :: s = t at h
  induction h generalizing s with
  | done => cases ht
  | one accepted =>
    cases ht
    exact accepted
  | left m ih => exact Bool.or_eq_true_iff.mpr (.inl (ih ht))
  | right m ih => exact Bool.or_eq_true_iff.mpr (.inr (ih ht))
  | @sequence a b u v m n ihm ihn =>
    rw [begins, Bool.or_eq_true_iff]
    cases u with
    | nil =>
      have hnull : a.nullable = true := (nullable_iff a).mpr m
      exact .inr (by rw [hnull, Bool.true_and]; exact ihn ht)
    | cons d u =>
      obtain ⟨rfl, -⟩ := List.cons.inj ht
      exact .inl (ihm rfl)
  | none => cases ht
  | @more a u v m n ihm ihn =>
    cases u with
    | nil => exact ihn ht
    | cons d u =>
      obtain ⟨rfl, -⟩ := List.cons.inj ht
      exact ihm rfl

end Pattern

namespace TokenKind

/-! ### Kinds with a single text -/

/-- The words that are no identifiers, with their kinds. -/
def keywords : List (String × TokenKind) :=
  [("use", .useWord), ("include", .includeWord), ("true", .trueWord), ("false", .falseWord),
   ("undef", .undefWord)]

/-- The only text of a kind that has no other. -/
def spelling? : TokenKind → Option (List Char)
  | useWord => some ['u', 's', 'e']
  | includeWord => some ['i', 'n', 'c', 'l', 'u', 'd', 'e']
  | trueWord => some ['t', 'r', 'u', 'e']
  | falseWord => some ['f', 'a', 'l', 's', 'e']
  | undefWord => some ['u', 'n', 'd', 'e', 'f']
  | orOp => some ['|', '|']
  | andOp => some ['&', '&']
  | equal => some ['=', '=']
  | notEqual => some ['!', '=']
  | lessEqual => some ['<', '=']
  | greaterEqual => some ['>', '=']
  | less => some ['<']
  | greater => some ['>']
  | plus => some ['+']
  | minus => some ['-']
  | star => some ['*']
  | slash => some ['/']
  | percent => some ['%']
  | bang => some ['!']
  | assign => some ['=']
  | semicolon => some [';']
  | openParen => some ['(']
  | closeParen => some [')']
  | openBrace => some ['\x7b']
  | closeBrace => some ['\x7d']
  | _ => none

theorem pattern_of_spelling {kind : TokenKind} {cs : List Char} (h : kind.spelling? = some cs) :
    kind.pattern = .literal cs := by
  cases kind <;> cases h <;> rfl

theorem mem_candidates (kind : TokenKind) : kind ∈ candidates true := by
  cases kind <;> decide

/-- What a keyword's kind and an identifier may share, and no other two kinds. -/
def ShareText (a b : TokenKind) : Prop :=
  (a ∈ keywords.map (·.2) ∧ b = .identifier) ∨ (a = .identifier ∧ b ∈ keywords.map (·.2))

instance (a b : TokenKind) : Decidable (ShareText a b) :=
  inferInstanceAs (Decidable (_ ∨ _))

theorem ShareText.symm {a b : TokenKind} (h : ShareText a b) : ShareText b a :=
  (Or.symm h).imp And.symm And.symm

/-- The text of a kind with a single text belongs to no other kind, but for keywords. -/
theorem eq_of_spelling {kind other : TokenKind} {cs : List Char} (h : kind.spelling? = some cs)
    (hother : other.pattern.Matches cs) : kind = other ∨ ShareText kind other := by
  have hall : ∀ kind ∈ candidates true, ∀ other ∈ candidates true, ∀ cs ∈ kind.spelling?,
      other.pattern.accepts cs = true → kind = other ∨ ShareText kind other := by
    decide +kernel
  exact hall kind (mem_candidates kind) other (mem_candidates other) cs h
    (Pattern.matches_iff_accepts.mp hother)

/-! ### Kinds with many texts -/

/-- The kind with many texts, comments apart, whose texts may begin with a character. -/
def beginning? (c : Char) : Option TokenKind :=
  if isNameStart c then some .identifier
  else if c.isDigit || c == '.' then some .number
  else if c == '"' then some .string
  else if c == '<' then some .path
  else none

/-- Digits and the point begin no name. -/
theorem not_isNameStart {c : Char} (h : c.isDigit = true ∨ c = '.') : isNameStart c = false := by
  rcases h with h | rfl
  · have hle : c.toNat ≤ 57 := (Char.isDigit_iff_toNat.mp h).2
    have halpha : c.isAlpha = false := Bool.eq_false_iff.mpr fun halpha => by
      rcases Bool.or_eq_true_iff.mp halpha with hupper | hlower
      · have hge : 65 ≤ c.toNat := UInt32.le_iff_toNat_le.mp (of_decide_eq_true hupper).1
        omega
      · have hge : 97 ≤ c.toNat :=
          UInt32.le_iff_toNat_le.mp (of_decide_eq_true (Bool.and_eq_true_iff.mp hlower).1)
        omega
    have hunderscore : c ≠ '_' := by
      rintro rfl
      cases h
    have hdollar : c ≠ '$' := by
      rintro rfl
      cases h
    simp [isNameStart, halpha, hunderscore, hdollar]
  · decide

theorem beginning_of_begins {kind : TokenKind} {c : Char} (h : kind.spelling? = none)
    (hc : kind.pattern.begins c = true) (hslash : c ≠ '/') : beginning? c = some kind := by
  cases kind <;> cases h
  case identifier =>
    have hname : isNameStart c = true := by simpa [pattern, Pattern.begins] using hc
    simp [beginning?, hname]
  case number =>
    have hdigit : c.isDigit = true ∨ c = '.' := by
      simpa [pattern, numberPattern, digit, Pattern.begins] using hc
    simp [beginning?, not_isNameStart hdigit, hdigit]
  case string =>
    obtain rfl : c = '"' := by
      simpa [pattern, stringFront, Pattern.begins] using hc
    decide
  case path =>
    obtain rfl : c = '<' := by
      simpa [pattern, pathPattern, Pattern.begins] using hc
    decide
  case lineComment =>
    exact absurd (by simpa [pattern, Pattern.begins] using hc)
      hslash
  case blockComment =>
    exact absurd (by simpa [pattern, blockCommentPattern, Pattern.begins] using hc) hslash

/-- Texts that begin with a slash and belong to a kind with many texts are comments. -/
theorem comment_of_slash {kind : TokenKind} (h : kind.spelling? = none)
    (hc : kind.pattern.begins '/' = true) : kind = .lineComment ∨ kind = .blockComment := by
  cases kind <;> cases h
  case lineComment => exact .inl rfl
  case blockComment => exact .inr rfl
  all_goals cases hc

theorem not_both_comments {s : List Char} (h : (pattern .lineComment).Matches s)
    (h' : (pattern .blockComment).Matches s) : False := by
  obtain ⟨rest, rfl⟩ := matches_lineComment h
  obtain ⟨inner, hinner⟩ := matches_blockComment h'
  cases hinner

/-- **No text belongs to two kinds**, but for the keywords, which are also identifiers. -/
theorem eq_of_matches {a b : TokenKind} {s : List Char} (ha : a.pattern.Matches s)
    (hb : b.pattern.Matches s) : a = b ∨ ShareText a b := by
  cases hsa : a.spelling? with
  | some cs =>
    rw [pattern_of_spelling hsa, Pattern.matches_literal] at ha
    exact eq_of_spelling hsa (ha ▸ hb)
  | none =>
    cases hsb : b.spelling? with
    | some cs =>
      rw [pattern_of_spelling hsb, Pattern.matches_literal] at hb
      exact (eq_of_spelling hsb (hb ▸ ha)).imp Eq.symm ShareText.symm
    | none =>
      obtain ⟨c, s, rfl⟩ := List.exists_cons_of_ne_nil
        (Pattern.ne_nil_of_matches a.pattern_nullable ha)
      have hac := Pattern.begins_of_matches ha
      have hbc := Pattern.begins_of_matches hb
      by_cases hslash : c = '/'
      · subst hslash
        rcases comment_of_slash hsa hac with rfl | rfl <;>
          rcases comment_of_slash hsb hbc with rfl | rfl
        · exact .inl rfl
        · exact absurd hb (not_both_comments ha)
        · exact absurd ha (not_both_comments hb)
        · exact .inl rfl
      · have hfirst := beginning_of_begins hsa hac hslash
        rw [beginning_of_begins hsb hbc hslash] at hfirst
        exact .inl (Option.some.inj hfirst).symm

/-- No token begins with a blank. -/
theorem not_blank_of_matches {kind : TokenKind} {c : Char} {s : List Char}
    (h : kind.pattern.Matches (c :: s)) : Lexer.isBlank c = false := by
  have hbegins := Pattern.begins_of_matches h
  refine Bool.eq_false_iff.mpr fun hc => ?_
  have hblank : c = ' ' ∨ c = '\t' ∨ c = '\r' ∨ c = '\n' ∨ c = '\x0c' := by
    simpa [Lexer.isBlank, or_assoc] using hc
  have hnone : kind.pattern.begins c = false := by
    rcases hblank with rfl | rfl | rfl | rfl | rfl <;> cases kind <;> rfl
  rw [hnone] at hbegins
  cases hbegins

/-! ### Block comments -/

/-- The text ends with a closing mark of a comment, and has none before. -/
def ClosesAtEnd (s : List Char) : Prop :=
  (∃ inner, s = inner ++ ['*', '/']) ∧ ∀ u v, s = u ++ '*' :: '/' :: v → v = []

theorem closesAtEnd_cons {c : Char} {s : List Char} (h : ¬(c = '*' ∧ s.head? = some '/')) :
    ClosesAtEnd (c :: s) ↔ ClosesAtEnd s := by
  constructor
  · rintro ⟨⟨inner, hinner⟩, hfirst⟩
    refine ⟨?_, fun u v hs => hfirst (c :: u) v (by rw [hs]; rfl)⟩
    cases inner with
    | nil =>
      obtain ⟨rfl, rfl⟩ := List.cons.inj hinner
      exact absurd ⟨rfl, rfl⟩ h
    | cons d inner =>
      obtain ⟨rfl, rfl⟩ := List.cons.inj hinner
      exact ⟨inner, rfl⟩
  · rintro ⟨⟨inner, rfl⟩, hfirst⟩
    refine ⟨⟨c :: inner, rfl⟩, fun u v hs => ?_⟩
    cases u with
    | nil =>
      obtain ⟨rfl, htail⟩ := List.cons.inj hs
      exact absurd ⟨rfl, by rw [htail]; rfl⟩ h
    | cons d u =>
      obtain ⟨rfl, htail⟩ := List.cons.inj hs
      exact hfirst u v htail

theorem closesAtEnd_mark {s : List Char} : ClosesAtEnd ('*' :: '/' :: s) ↔ s = [] := by
  constructor
  · rintro ⟨-, hfirst⟩
    exact hfirst [] s rfl
  · rintro rfl
    refine ⟨⟨[], rfl⟩, fun u v hs => ?_⟩
    have hlength := congrArg List.length hs
    simp only [List.length_append, List.length_cons, List.length_nil] at hlength
    exact List.length_eq_zero_iff.mp (by omega)

theorem not_closesAtEnd_short {s : List Char} (h : s.length < 2) : ¬ ClosesAtEnd s := by
  rintro ⟨⟨inner, rfl⟩, -⟩
  rw [List.length_append, List.length_cons, List.length_singleton] at h
  omega

/-- What follows an opening mark, and what follows a star there, ends with the first closing
mark. -/
theorem matches_commentRest (s : List Char) :
    (commentRest.Matches s ↔ ClosesAtEnd s) ∧
      (commentStar.Matches s ↔ ClosesAtEnd ('*' :: s)) := by
  induction s with
  | nil =>
    constructor
    · rw [← Pattern.nullable_iff]
      exact iff_of_false (by decide) (not_closesAtEnd_short (by decide))
    · rw [← Pattern.nullable_iff]
      exact iff_of_false (by decide) (not_closesAtEnd_short (by decide))
  | cons c s ih =>
    rw [← Pattern.matches_after, ← Pattern.matches_after, commentRest_after, commentStar_after]
    by_cases hstar : c = '*'
    · subst hstar
      rw [if_pos rfl, if_pos rfl, closesAtEnd_cons (s := '*' :: s) (by simp)]
      exact ⟨ih.2, ih.2⟩
    · have hrest : ClosesAtEnd (c :: s) ↔ ClosesAtEnd s := closesAtEnd_cons (by simp [hstar])
      rw [if_neg hstar, if_neg hstar]
      by_cases hslash : c = '/'
      · subst hslash
        rw [if_pos rfl, closesAtEnd_mark, Pattern.matches_done, hrest]
        exact ⟨ih.1, Iff.rfl⟩
      · have hboth : ClosesAtEnd ('*' :: c :: s) ↔ ClosesAtEnd s :=
          (closesAtEnd_cons (by simp [hslash])).trans hrest
        rw [if_neg hslash, hboth, hrest]
        exact ⟨ih.1, ih.1⟩

/-- **A block comment is its opening mark and what follows, through the first closing mark.** -/
theorem matches_blockComment_iff {s : List Char} : (pattern .blockComment).Matches s ↔
    ∃ body, s = '/' :: '*' :: body ∧ ClosesAtEnd body := by
  have hpattern : pattern .blockComment = .sequence (.literal ['/', '*']) commentRest := rfl
  rw [hpattern, Pattern.matches_sequence]
  constructor
  · rintro ⟨u, body, rfl, hu, hbody⟩
    rw [Pattern.matches_literal.mp hu]
    exact ⟨body, rfl, (matches_commentRest body).1.mp hbody⟩
  · rintro ⟨body, rfl, hbody⟩
    exact ⟨['/', '*'], body, rfl, Pattern.matches_literal.mpr rfl,
      (matches_commentRest body).1.mpr hbody⟩

end TokenKind
end OpenScad
