/-
# Tokens do not look past a line feed

The longest text of a pattern at the front of a source stays the longest when a
line feed and anything else are put behind the source, if the pattern's texts
have no line feeds, or if no text of the pattern goes on to a longer one.
Strings and block comments may have line feeds, but are closed for good: behind
a text of theirs, only the empty text is left. Every other kind has no line
feed in its texts. So the token at a place is the same with a line feed and more
behind the source (`tokenAt_append`), provided that there is a token: a string
or a comment that is left open could be closed by what is put behind.

Key definitions: `Pattern.avoids`, `Pattern.Closed`.
Key theorems: `Pattern.longest_append`, `Lexer.tokenAt_append`.
-/
import OpenScad.Proofs.Lexer.Run

namespace OpenScad
namespace Pattern

/-! ### Patterns without a character -/

/-- A test that only succeeds if no text of the pattern has the character. -/
def avoids (c : Char) : Pattern → Bool
  | nothing => true
  | done => true
  | one test => !test c
  | either a b => a.avoids c && b.avoids c
  | sequence a b => a.avoids c && b.avoids c
  | many a => a.avoids c

theorem not_mem_of_avoids {c : Char} {p : Pattern} {s : List Char} (hp : p.avoids c = true)
    (h : p.Matches s) : c ∉ s := by
  induction h with
  | done => exact List.not_mem_nil
  | @one test d accepted =>
    intro hc
    rw [List.mem_singleton.mp hc] at hp
    simp [avoids, accepted] at hp
  | left m ih => exact ih (Bool.and_eq_true_iff.mp hp).1
  | right m ih => exact ih (Bool.and_eq_true_iff.mp hp).2
  | sequence m n ihm ihn =>
    obtain ⟨ha, hb⟩ := Bool.and_eq_true_iff.mp hp
    exact fun hc => (List.mem_append.mp hc).elim (ihm ha) (ihn hb)
  | none => exact List.not_mem_nil
  | more m n ihm ihn => exact fun hc => (List.mem_append.mp hc).elim (ihm hp) (ihn hp)

/-! ### Patterns whose texts do not go on -/

/-- No text of the pattern goes on to a longer one. -/
def Closed (p : Pattern) : Prop := ∀ u v, p.Matches u → p.Matches (u ++ v) → v = []

/-- A set of patterns that has with each of them also what may follow a character, and in which
only `done` describes the empty text. -/
structure Settles (states : Pattern → Prop) : Prop where
  after : ∀ p c, states p → states (p.after c)
  eq_done : ∀ p, states p → p.nullable = true → p = done

theorem Settles.closed {states : Pattern → Prop} (h : Settles states) {p : Pattern}
    (hp : states p) : p.Closed := by
  intro u v hu huv
  induction u generalizing p with
  | nil =>
    have hdone : p = done := h.eq_done p hp ((nullable_iff p).mpr hu)
    rw [hdone, List.nil_append] at huv
    exact matches_done.mp huv
  | cons c u ih =>
    rw [List.cons_append] at huv
    exact ih (h.after p c hp) ((matches_after p c u).mpr hu) ((matches_after p c _).mpr huv)

/-! ### The longest text with more behind -/

/-- The longest text is the only one of its pattern that none at the front exceeds. -/
theorem longest_eq_some {p : Pattern} {text : List Char} {n : Nat} (hn : n ≤ text.length)
    (h : p.Matches (text.take n))
    (hmax : ∀ m, n < m → m ≤ text.length → ¬ p.Matches (text.take m)) :
    p.longest text = Option.some n := by
  have hl := p.longest_matches text
  cases hr : p.longest text with
  | none =>
    rw [hr] at hl
    exact absurd h (hl n hn)
  | some k =>
    rw [hr] at hl
    obtain ⟨hk, hmatch, hlonger⟩ := hl
    rcases Nat.lt_trichotomy n k with hlt | rfl | hgt
    · exact absurd hmatch (hmax k hlt hk)
    · rfl
    · exact absurd h (hlonger n hgt hn)

theorem longest_eq_none {p : Pattern} {text : List Char}
    (h : ∀ m, m ≤ text.length → ¬ p.Matches (text.take m)) : p.longest text = Option.none := by
  have hl := p.longest_matches text
  cases hr : p.longest text with
  | none => rfl
  | some k =>
    rw [hr] at hl
    exact absurd hl.2.1 (h k hl.1)

/-- If no text of the pattern reaches past a source, nothing behind the source matters. -/
theorem longest_append {p : Pattern} {s w : List Char}
    (h : ∀ v, v ≠ [] → v <+: w → ¬ p.Matches (s ++ v)) : p.longest (s ++ w) = p.longest s := by
  -- what is longer than the source goes on into what is behind it
  have past : ∀ m, s.length < m → m ≤ (s ++ w).length → ¬ p.Matches ((s ++ w).take m) := by
    intro m hm hle
    have htake : (s ++ w).take m = s ++ w.take (m - s.length) := by
      rw [List.take_append, List.take_of_length_le (Nat.le_of_lt hm)]
    rw [List.length_append] at hle
    rw [htake]
    refine h _ (fun hnil => ?_) (List.take_prefix _ _)
    have hlength := congrArg List.length hnil
    rw [List.length_take, List.length_nil] at hlength
    omega
  have within : ∀ m, m ≤ s.length → (s ++ w).take m = s.take m := fun m hm =>
    List.take_append_of_le_length hm
  have hl := p.longest_matches s
  cases hr : p.longest s with
  | none =>
    rw [hr] at hl
    refine longest_eq_none fun m hm => ?_
    by_cases hms : m ≤ s.length
    · rw [within m hms]
      exact hl m hms
    · exact past m (Nat.lt_of_not_le hms) hm
  | some n =>
    rw [hr] at hl
    obtain ⟨hn, hmatch, hlonger⟩ := hl
    refine longest_eq_some ?_ ?_ fun m hnm hm => ?_
    · rw [List.length_append]
      omega
    · rwa [within n hn]
    · by_cases hms : m ≤ s.length
      · rw [within m hms]
        exact hlonger m hnm hms
      · exact past m (Nat.lt_of_not_le hms) hm

theorem longest_append_of_avoids {p : Pattern} {c : Char} (hp : p.avoids c = true)
    (s t : List Char) : p.longest (s ++ c :: t) = p.longest s := by
  refine longest_append fun v hv hfront hmatch => ?_
  obtain ⟨d, v, rfl⟩ := List.exists_cons_of_ne_nil hv
  have hd : d = c := (List.cons_prefix_cons.mp hfront).1
  exact not_mem_of_avoids hp hmatch (by simp [hd])

theorem longest_append_of_closed {p : Pattern} {s w : List Char} {n : Nat} (hp : p.Closed)
    (h : p.longest s = Option.some n) : p.longest (s ++ w) = Option.some n := by
  have hl := p.longest_matches s
  rw [h] at hl
  have hs : s.take n ++ s.drop n = s := List.take_append_drop n s
  rw [← h]
  refine longest_append fun v hv _ hmatch => ?_
  rw [← hs, List.append_assoc] at hmatch
  have hnil := hp _ _ hl.2.1 hmatch
  exact hv (List.append_eq_nil_iff.mp hnil).2

/-- A pattern without texts that begin with a source's first character has no text there. -/
theorem longest_cons_of_after {p : Pattern} {c : Char} (hp : p.nullable = false)
    (hafter : p.after c = nothing) (s : List Char) : p.longest (c :: s) = Option.none := by
  refine longest_eq_none fun m _ hmatch => ?_
  cases m with
  | zero => exact ne_nil_of_matches hp hmatch rfl
  | succ m =>
    have := (matches_after p c _).mpr hmatch
    rw [hafter] at this
    cases this

end Pattern

namespace TokenKind

/-! ### Kinds of tokens -/

theorem avoids_lineFeed (kind : TokenKind) (hstring : kind ≠ .string)
    (hcomment : kind ≠ .blockComment) : kind.pattern.avoids '\n' = true := by
  cases kind <;> first | rfl | contradiction

/-- A character inside a string, or an escaped one. -/
def stringPart : Pattern :=
  .either (noneOf ['"', '\\']) (.sequence (oneOf ['\\']) (noneOf ['\n']))

/-- What may follow the front of a string: its inside and the quote that closes it. -/
def stringRest : Pattern := .sequence (.many stringPart) (oneOf ['"'])

/-- What may follow a backslash in a string. -/
def stringEscape : Pattern :=
  .sequence (.sequence (noneOf ['\n']) (.many stringPart)) (oneOf ['"'])

theorem string_after (c : Char) :
    (pattern .string).after c = if c = '"' then stringRest else .nothing := by
  by_cases h : c = '"' <;> simp [pattern, stringFront, stringRest, stringPart, h]

theorem stringRest_after (c : Char) : stringRest.after c =
    if c = '"' then .done else if c = '\\' then stringEscape else stringRest := by
  by_cases h : c = '"'
  · simp [stringRest, stringPart, h]
  · by_cases h' : c = '\\' <;> simp [stringRest, stringPart, stringEscape, h, h']

theorem stringEscape_after (c : Char) :
    stringEscape.after c = if c = '\n' then .nothing else stringRest := by
  by_cases h : c = '\n' <;> simp [stringRest, stringPart, stringEscape, h]

theorem string_settles : Pattern.Settles
    (· ∈ [pattern .string, stringRest, stringEscape, .done, .nothing]) := by
  constructor
  · intro p c hp
    simp only [List.mem_cons, List.not_mem_nil, or_false] at hp ⊢
    rcases hp with rfl | rfl | rfl | rfl | rfl
    · rw [string_after]
      split <;> simp
    · rw [stringRest_after]
      split
      · simp
      · split <;> simp
    · rw [stringEscape_after]
      split <;> simp
    · simp
    · simp
  · intro p hp hnull
    simp only [List.mem_cons, List.not_mem_nil, or_false] at hp
    rcases hp with rfl | rfl | rfl | rfl | rfl
    · cases hnull
    · cases hnull
    · cases hnull
    · rfl
    · cases hnull

/-- Text inside a comment: a character, or stars and a character that does not close it. -/
def commentPart : Pattern :=
  .either (noneOf ['*']) (.sequence (.some (oneOf ['*'])) (noneOf ['*', '/']))

/-- The marks that close a comment. -/
def commentClose : Pattern := .sequence (.some (oneOf ['*'])) (oneOf ['/'])

/-- What may follow the mark that opens a comment. -/
def commentRest : Pattern := .sequence (.many commentPart) commentClose

/-- What may follow a star in a comment: more of the comment, or its end. -/
def commentStar : Pattern :=
  .either
    (.sequence (.sequence (.sequence (.many (oneOf ['*'])) (noneOf ['*', '/'])) (.many commentPart))
      commentClose)
    (.sequence (.many (oneOf ['*'])) (oneOf ['/']))

theorem blockComment_after (c : Char) : (pattern .blockComment).after c =
    if c = '/' then .sequence (.literal ['*']) commentRest else .nothing := by
  by_cases h : c = '/' <;>
    simp [pattern, blockCommentPattern, commentRest, commentPart, commentClose, h]

theorem commentRest_after (c : Char) :
    commentRest.after c = if c = '*' then commentStar else commentRest := by
  by_cases h : c = '*' <;> simp [commentRest, commentStar, commentPart, commentClose, h]

theorem commentStar_after (c : Char) : commentStar.after c =
    if c = '*' then commentStar else if c = '/' then .done else commentRest := by
  by_cases h : c = '*'
  · simp [commentStar, commentPart, commentClose, h]
  · by_cases h' : c = '/' <;> simp [commentRest, commentStar, commentPart, commentClose, h, h']

theorem blockComment_settles : Pattern.Settles
    (· ∈ [pattern .blockComment, .sequence (.literal ['*']) commentRest, commentRest, commentStar,
      .done, .nothing]) := by
  constructor
  · intro p c hp
    simp only [List.mem_cons, List.not_mem_nil, or_false] at hp ⊢
    rcases hp with rfl | rfl | rfl | rfl | rfl | rfl
    · rw [blockComment_after]
      split <;> simp
    · by_cases h : c = '*' <;> simp [h]
    · rw [commentRest_after]
      split <;> simp
    · rw [commentStar_after]
      split
      · simp
      · split <;> simp
    · simp
    · simp
  · intro p hp hnull
    simp only [List.mem_cons, List.not_mem_nil, or_false] at hp
    rcases hp with rfl | rfl | rfl | rfl | rfl | rfl
    · cases hnull
    · cases hnull
    · cases hnull
    · cases hnull
    · rfl
    · cases hnull

theorem string_closed : (pattern .string).Closed := string_settles.closed (by simp)

theorem blockComment_closed : (pattern .blockComment).Closed :=
  blockComment_settles.closed (by simp)

/-- Only a string begins with a quote. -/
theorem after_quote {kind : TokenKind} (h : kind ≠ .string) :
    kind.pattern.after '"' = .nothing := by
  cases kind <;> first | rfl | contradiction

end TokenKind

/-! ### The token at a place -/

namespace Lexer

open TokenKind

theorem longestOf_congr {s s' : List Char} : ∀ {kinds : List TokenKind},
    (∀ kind ∈ kinds, kind.pattern.longest s = kind.pattern.longest s') →
    longestOf kinds s = longestOf kinds s'
  | [], _ => rfl
  | kind :: kinds, h => by
    rw [longestOf, longestOf, h kind List.mem_cons_self,
      longestOf_congr fun k hk => h k (List.mem_cons_of_mem kind hk)]

variable {allowed : Bool} {s : List Char} {kind : TokenKind} {n : Nat}

/-- Where a source begins with a quote and has a token, the token is a string. -/
theorem string_of_tokenAt {rest : List Char} (h : tokenAt allowed ('"' :: rest) = .ok (kind, n)) :
    kind = .string := by
  by_cases hkind : kind = .string
  · exact hkind
  · have hnone := Pattern.longest_cons_of_after kind.pattern_nullable (after_quote hkind) rest
    rw [longest_of_tokenAt h] at hnone
    cases hnone

/-- Where a source begins with the mark of a comment and has a token, there is a comment. -/
theorem comment_of_tokenAt (hopen : ['/', '*'] <+: s) (h : tokenAt allowed s = .ok (kind, n)) :
    ∃ m, (pattern .blockComment).longest s = some m := by
  unfold tokenAt at h
  split at h
  · cases h
  · rename_i hclosed
    refine Option.ne_none_iff_exists'.mp fun hnone => hclosed ⟨?_, ?_⟩
    · exact List.isPrefixOf_iff_prefix.mpr hopen
    · rw [hnone]
      rfl

/-- A comment is opened by two characters. -/
theorem longest_comment_of_not {text : List Char} (h : ¬ ['/', '*'] <+: text) :
    (pattern .blockComment).longest text = none := by
  refine Pattern.longest_eq_none fun m _ hmatch => ?_
  obtain ⟨inner, hinner⟩ := matches_blockComment hmatch
  exact h ((hinner ▸ List.prefix_append _ _ : ['/', '*'] <+: text.take m).trans
    (List.take_prefix m text))

/-- A line feed does not complete the mark that opens a comment. -/
theorem prefix_of_prefix_append {s t : List Char} (h : ['/', '*'] <+: s ++ '\n' :: t) :
    ['/', '*'] <+: s := by
  rcases s with - | ⟨c, - | ⟨d, rest⟩⟩
  · simp [List.cons_prefix_cons] at h
  · simp [List.cons_prefix_cons] at h
  · simpa [List.cons_prefix_cons] using h

/-- Where a source has a token, a line feed and more behind it change no longest text. -/
theorem longest_append_of_tokenAt (h : tokenAt allowed s = .ok (kind, n)) (t : List Char)
    (other : TokenKind) : other.pattern.longest (s ++ '\n' :: t) = other.pattern.longest s := by
  have hpos : s ≠ [] := by
    rintro rfl
    have := pos_of_tokenAt h
    have := (matches_of_tokenAt h).1
    rw [List.length_nil] at this
    omega
  obtain ⟨c, rest, rfl⟩ := List.exists_cons_of_ne_nil hpos
  by_cases hstring : other = .string
  · subst hstring
    by_cases hc : c = '"'
    · subst hc
      have hlongest := longest_of_tokenAt h
      rw [string_of_tokenAt h] at hlongest
      rw [hlongest]
      exact Pattern.longest_append_of_closed string_closed hlongest
    · have hafter : (pattern .string).after c = .nothing := by
        rw [string_after, if_neg hc]
      have hnull := pattern_nullable .string
      rw [List.cons_append, Pattern.longest_cons_of_after hnull hafter,
        Pattern.longest_cons_of_after hnull hafter]
  · by_cases hcomment : other = .blockComment
    · subst hcomment
      by_cases hopen : ['/', '*'] <+: c :: rest
      · obtain ⟨m, hm⟩ := comment_of_tokenAt hopen h
        rw [hm]
        exact Pattern.longest_append_of_closed blockComment_closed hm
      · rw [longest_comment_of_not hopen,
          longest_comment_of_not fun h => hopen (prefix_of_prefix_append h)]
    · exact Pattern.longest_append_of_avoids (avoids_lineFeed other hstring hcomment) _ t

/-- Where the longest texts are those of a source that has a token, and no comment is opened
unless it is opened there, the token is the same. -/
theorem tokenAt_of_longest {s' : List Char} (h : tokenAt allowed s = .ok (kind, n))
    (hlongest : ∀ other ∈ candidates allowed, other.pattern.longest s' = other.pattern.longest s)
    (hopen : ['/', '*'] <+: s' → ['/', '*'] <+: s) : tokenAt allowed s' = .ok (kind, n) := by
  have hcomment : blockComment ∈ candidates allowed := by
    cases allowed <;> decide
  have hclosed : ¬ (['/', '*'].isPrefixOf s' = true ∧
      ((pattern .blockComment).longest s').isNone = true) := by
    rw [hlongest .blockComment hcomment]
    rintro ⟨hfront, hnone⟩
    obtain ⟨m, hm⟩ := comment_of_tokenAt (hopen (List.isPrefixOf_iff_prefix.mp hfront)) h
    rw [hm] at hnone
    cases hnone
  unfold tokenAt
  rw [if_neg hclosed, longestOf_congr hlongest, found_of_tokenAt h]

/-- **The token at a place stays the same with a line feed and anything else behind the
source.** -/
theorem tokenAt_append (h : tokenAt allowed s = .ok (kind, n)) (t : List Char) :
    tokenAt allowed (s ++ '\n' :: t) = .ok (kind, n) :=
  tokenAt_of_longest h (fun other _ => longest_append_of_tokenAt h t other) prefix_of_prefix_append

end Lexer
end OpenScad
