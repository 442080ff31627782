/-
# A text cut into tokens

`Run` describes how a text is cut: blanks, a token that is the choice of
`tokenAt` at its place, and so on up to blanks at the end. The scanner's tokens
are those of a run. Every token of a run is proper: it stands at a position,
its value is its own text, and its kind's pattern describes that text.

Key definitions: `Lexer.Run`, `Lexeme.Proper`.
Key theorems: `Lexer.scan_gap`, `Lexer.scan_run`, `proper_of_lex`.
-/
import OpenScad.Lexer
import OpenScad.Proofs.Lexer.Shape

namespace OpenScad

/-- The characters of a token. -/
def Lexeme.text (l : Lexeme) : List Char := l.token.value.toList

theorem Lexeme.text_starting (kind : TokenKind) (p : Position) (value : List Char) :
    Lexeme.text { kind, token := .starting p (String.ofList value) } = value :=
  String.toList_ofList

/-- A token as it is cut out of a source: it stands at a position, nothing but its value
is its text, and the pattern of its kind describes it. -/
structure Lexeme.Proper (l : Lexeme) : Prop where
  one_le_line : 1 ≤ l.token.line
  one_le_column : 1 ≤ l.token.column
  text_none : l.token.text = none
  spelled : l.kind.pattern.Matches l.token.value.toList

namespace Lexer

/-! ### The token at a place -/

/-- The chosen kind is the first one, unless a kind behind it has a longer text there. -/
theorem longestOf_cons {source : List Char} {first kind : TokenKind} {kinds : List TokenKind}
    {n : Nat} (h : longestOf (first :: kinds) source = some (kind, n)) :
    (kind = first ∧ first.pattern.longest source = some n ∧
      ∀ other m, longestOf kinds source = some (other, m) → m ≤ n) ∨
    (longestOf kinds source = some (kind, n) ∧
      ∀ m, first.pattern.longest source = some m → m < n) := by
  rw [longestOf] at h
  split at h
  · rename_i n' other m hfirst hrest
    split at h
    · rename_i hlt
      cases h
      refine .inr ⟨hrest, fun m' hm => ?_⟩
      rw [hfirst] at hm
      cases hm
      exact hlt
    · rename_i hle
      cases h
      refine .inl ⟨rfl, hfirst, fun other' m' hm => ?_⟩
      rw [hrest] at hm
      cases hm
      exact Nat.not_lt.mp hle
  · rename_i hfirst hrest
    cases h
    refine .inl ⟨rfl, hfirst, fun other m hm => ?_⟩
    rw [hrest] at hm
    cases hm
  · rename_i hfirst
    refine .inr ⟨h, fun m hm => ?_⟩
    rw [hfirst] at hm
    cases hm

theorem mem_of_longestOf {source : List Char} {kind : TokenKind} {n : Nat} :
    ∀ {kinds : List TokenKind}, longestOf kinds source = some (kind, n) →
      kind ∈ kinds ∧ kind.pattern.longest source = some n
  | [], h => by simp [longestOf] at h
  | first :: kinds, h => by
    rcases longestOf_cons h with ⟨rfl, hfirst, -⟩ | ⟨hrest, -⟩
    · exact ⟨List.mem_cons_self, hfirst⟩
    · obtain ⟨hmem, hlongest⟩ := mem_of_longestOf hrest
      exact ⟨List.mem_cons_of_mem _ hmem, hlongest⟩

/-- Where no kind is chosen, none has a text. -/
theorem longest_eq_none_of_longestOf {source : List Char} :
    ∀ {kinds : List TokenKind}, longestOf kinds source = none →
      ∀ k ∈ kinds, k.pattern.longest source = none
  | [], _, k, hk => absurd hk List.not_mem_nil
  | first :: kinds, h, k, hk => by
    rw [longestOf] at h
    split at h
    · split at h <;> cases h
    · cases h
    · rename_i hfirst
      rcases List.mem_cons.mp hk with rfl | hk
      · exact hfirst
      · exact longest_eq_none_of_longestOf h k hk

/-- No kind has a longer text there than the kind that is chosen. -/
theorem le_of_longestOf {source : List Char} {kind : TokenKind} {n : Nat} :
    ∀ {kinds : List TokenKind}, longestOf kinds source = some (kind, n) →
      ∀ k ∈ kinds, ∀ m, k.pattern.longest source = some m → m ≤ n
  | [], _, k, hk, _, _ => absurd hk List.not_mem_nil
  | first :: kinds, h, k, hk, m, hm => by
    rcases longestOf_cons h with ⟨-, hfirst, hle⟩ | ⟨hrest, hlt⟩
    · rcases List.mem_cons.mp hk with rfl | hk
      · rw [hfirst] at hm
        cases hm
        exact Nat.le_refl n
      · cases hlater : longestOf kinds source with
        | none =>
          rw [longest_eq_none_of_longestOf hlater k hk] at hm
          cases hm
        | some found =>
          exact Nat.le_trans (le_of_longestOf hlater k hk m hm) (hle _ _ hlater)
    · rcases List.mem_cons.mp hk with rfl | hk
      · exact Nat.le_of_lt (hlt m hm)
      · exact le_of_longestOf hrest k hk m hm

theorem found_of_tokenAt {allowed : Bool} {source : List Char} {kind : TokenKind} {n : Nat}
    (h : tokenAt allowed source = .ok (kind, n)) :
    longestOf (TokenKind.candidates allowed) source = some (kind, n) := by
  unfold tokenAt at h
  split at h
  · cases h
  · split at h
    · rename_i hf
      cases h
      exact hf
    · cases h

/-- The token at the front of a source is a longest text of its kind, and not empty. -/
theorem longest_of_tokenAt {allowed : Bool} {source : List Char} {kind : TokenKind} {n : Nat}
    (h : tokenAt allowed source = .ok (kind, n)) : kind.pattern.longest source = some n :=
  (mem_of_longestOf (found_of_tokenAt h)).2

theorem matches_of_tokenAt {allowed : Bool} {source : List Char} {kind : TokenKind} {n : Nat}
    (h : tokenAt allowed source = .ok (kind, n)) :
    n ≤ source.length ∧ kind.pattern.Matches (source.take n) := by
  have hl := kind.pattern.longest_matches source
  rw [longest_of_tokenAt h] at hl
  exact ⟨hl.1, hl.2.1⟩

/-- A token takes at least one character. -/
theorem pos_of_tokenAt {allowed : Bool} {source : List Char} {kind : TokenKind} {n : Nat}
    (h : tokenAt allowed source = .ok (kind, n)) : 0 < n := by
  have hne := Pattern.ne_nil_of_matches kind.pattern_nullable (matches_of_tokenAt h).2
  cases n with
  | zero => simp at hne
  | succ n => exact Nat.succ_pos n

/-! ### Runs -/

/-- How a text that starts at a position is cut into tokens, where `allowed` says whether
a path may come first. -/
inductive Run : Bool → Position → List Char → List Lexeme → Prop where
  | blank {allowed : Bool} {start : Position} {gap : List Char}
      (blank : ∀ c ∈ gap, isBlank c = true) : Run allowed start gap []
  | token {allowed : Bool} {start : Position} {gap value rest : List Char} {kind : TokenKind}
      {ls : List Lexeme} (blank : ∀ c ∈ gap, isBlank c = true)
      (first : ∀ c ∈ value.head?, isBlank c = false)
      (found : tokenAt allowed (value ++ rest) = .ok (kind, value.length))
      (later : Run kind.announcesPath ((start.past gap).past value) rest ls) :
      Run allowed start (gap ++ (value ++ rest))
        ({ kind, token := .starting (start.past gap) (String.ofList value) } :: ls)

/-- Blanks before a body that begins with no blank are all that the scanner skips. -/
theorem takeWhile_gap {gap body : List Char} (hblank : ∀ c ∈ gap, isBlank c = true)
    (hbody : ∀ c ∈ body.head?, isBlank c = false) : (gap ++ body).takeWhile isBlank = gap := by
  rw [List.takeWhile_append_of_pos hblank]
  cases body with
  | nil => rw [List.takeWhile_nil, List.append_nil]
  | cons c body => rw [List.takeWhile_cons_of_neg (by simp [hbody c rfl]), List.append_nil]

theorem dropWhile_gap {gap body : List Char} (hblank : ∀ c ∈ gap, isBlank c = true)
    (hbody : ∀ c ∈ body.head?, isBlank c = false) : (gap ++ body).dropWhile isBlank = body := by
  rw [List.dropWhile_append_of_pos hblank]
  cases body with
  | nil => rfl
  | cons c body => rw [List.dropWhile_cons_of_neg (by simp [hbody c rfl])]

/-- Nothing is cut out of blanks. -/
theorem scan_blank {allowed : Bool} {start : Position} {gap : List Char}
    (hblank : ∀ c ∈ gap, isBlank c = true) : scan allowed start gap = .ok [] := by
  have hdrop : (gap ++ []).dropWhile isBlank = [] := List.dropWhile_append_of_pos hblank
  rw [List.append_nil] at hdrop
  unfold scan
  split
  · rfl
  · rename_i hd
    rw [hdrop] at hd
    cases hd

/-- **What the scanner does behind blanks:** it cuts out the token at the place and goes on behind
it, or ends with an error there. -/
theorem scan_gap {allowed : Bool} {start : Position} {gap body : List Char}
    (hblank : ∀ c ∈ gap, isBlank c = true) (hbody : ∀ c ∈ body.head?, isBlank c = false)
    (hne : body ≠ []) : scan allowed start (gap ++ body) =
      match tokenAt allowed body with
      | .error n => .error { text := String.ofList (body.take n), position := start.past gap }
      | .ok (kind, n) => do
        let ls ← scan kind.announcesPath ((start.past gap).past (body.take n)) (body.drop n)
        return { kind, token := .starting (start.past gap) (String.ofList (body.take n)) } :: ls := by
  obtain ⟨c, rest, rfl⟩ := List.exists_cons_of_ne_nil hne
  have hdrop : (gap ++ c :: rest).dropWhile isBlank = c :: rest := dropWhile_gap hblank hbody
  have htake : (gap ++ c :: rest).takeWhile isBlank = gap := takeWhile_gap hblank hbody
  rw [scan]
  rw [htake]
  split
  · rename_i hd
    rw [hdrop] at hd
    cases hd
  · rename_i d more hd
    rw [hdrop] at hd
    obtain ⟨rfl, rfl⟩ := List.cons.inj hd
    cases hfound : tokenAt allowed (c :: rest) with
    | error n => rfl
    | ok found =>
      obtain ⟨kind, n⟩ := found
      obtain ⟨n, rfl⟩ := Nat.exists_eq_succ_of_ne_zero (Nat.ne_of_gt (pos_of_tokenAt hfound))
      simp only [Nat.succ_eq_add_one, Nat.add_sub_cancel, List.take_succ_cons,
        List.drop_succ_cons]
      cases scan kind.announcesPath ((start.past gap).past (c :: rest.take n)) (rest.drop n) <;> rfl

/-- A source is blanks and then a body that begins with no blank. -/
theorem exists_gap (source : List Char) : ∃ gap body, source = gap ++ body ∧
    (∀ c ∈ gap, isBlank c = true) ∧ ∀ c ∈ body.head?, isBlank c = false := by
  refine ⟨source.takeWhile isBlank, source.dropWhile isBlank,
    List.takeWhile_append_dropWhile.symm, fun c hc => List.all_eq_true.mp List.all_takeWhile c hc,
    fun c hc => ?_⟩
  have hhead := List.head?_dropWhile_not isBlank source
  rw [Option.mem_def.mp hc] at hhead
  simpa using hhead

/-- The tokens that the scanner gives are those of a run. -/
theorem scan_run {allowed : Bool} {start : Position} {source : List Char} {ls : List Lexeme}
    (h : scan allowed start source = .ok ls) : Run allowed start source ls := by
  induction hn : source.length using Nat.strongRecOn generalizing allowed start source ls with
  | _ n ih =>
  obtain ⟨gap, body, rfl, hblank, hbody⟩ := exists_gap source
  by_cases hne : body = []
  · subst hne
    rw [List.append_nil] at h ⊢
    rw [scan_blank hblank] at h
    cases h
    exact .blank hblank
  · rw [scan_gap hblank hbody hne] at h
    cases hfound : tokenAt allowed body with
    | error k =>
      rw [hfound] at h
      cases h
    | ok found =>
      obtain ⟨kind, k⟩ := found
      rw [hfound] at h
      obtain ⟨later, hlater, h⟩ := exists_of_bind_eq_ok h
      cases h
      have hpos := pos_of_tokenAt hfound
      have hle := (matches_of_tokenAt hfound).1
      have hsplit : body.take k ++ body.drop k = body := List.take_append_drop k body
      have hlength : (body.take k).length = k := List.length_take_of_le hle
      have hfirst : ∀ c ∈ (body.take k).head?, isBlank c = false := by
        rw [List.head?_take, if_neg (by omega)]
        exact hbody
      have hrest := ih _ (by simp only [List.length_append, List.length_drop] at hn ⊢; omega)
        hlater rfl
      have hrun : Run allowed start (gap ++ (body.take k ++ body.drop k)) _ :=
        .token hblank hfirst (by rwa [hsplit, hlength]) hrest
      rwa [hsplit] at hrun

theorem Run.proper {allowed : Bool} {start : Position} {source : List Char} {ls : List Lexeme}
    (h : Run allowed start source ls) (hstart : start.Valid) : ∀ l ∈ ls, l.Proper := by
  induction h with
  | blank => simp
  | @token allowed start gap value rest kind ls _ _ found _ ih =>
    intro l hl
    have hposition : (start.past gap).Valid := hstart.past gap
    rcases List.mem_cons.mp hl with rfl | hl
    · refine ⟨hposition.one_le_line, hposition.one_le_column, rfl, ?_⟩
      have := (matches_of_tokenAt found).2
      simpa [Token.starting] using this
    · exact ih (hposition.past value) l hl

end Lexer

theorem run_of_lex {source : String} {ls : List Lexeme} (h : lex source = .ok ls) :
    Lexer.Run false .origin source.toList ls :=
  Lexer.scan_run h

/-- Where something is found of a source's tokens, there are tokens of which it holds. -/
theorem exists_lex {α : Type} {source : String} {f : List Lexeme → α} {a : α}
    (h : (lex source).toOption.map f = some a) : ∃ ls, lex source = .ok ls ∧ f ls = a := by
  cases hlex : lex source with
  | error e =>
    rw [hlex] at h
    cases h
  | ok ls =>
    rw [hlex] at h
    exact ⟨ls, rfl, Option.some.inj h⟩

theorem proper_of_lex {source : String} {ls : List Lexeme} (h : lex source = .ok ls) :
    ∀ l ∈ ls, l.Proper :=
  (run_of_lex h).proper Position.valid_origin

end OpenScad
