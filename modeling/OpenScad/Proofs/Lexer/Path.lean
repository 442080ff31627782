/-
# Where paths stand

A path is a token right behind a word that announces one, and nowhere else
(`paths_of_lex`). Behind such a word, blanks and then the text of a path make a
path for certain, since nothing else that may stand there has as long a text. So
whether the next token is a path can be read off the source, without cutting it:
the direct search for a path finds it exactly where its pattern does, and where
it finds none the tokens are those of any other place (`Lexer.scan_after_word`).

Everywhere else the marks of a path are comparisons. Strings and comments may
have the marks inside; no other kind has them, except as the first character of
a comparison.

Key definitions: `Lexeme.behind`, `Lexer.PathAhead`, `TokenKind.comparisons`.
Key theorems: `TokenKind.matches_path_iff`, `Lexer.tokenAt_path`,
`Lexer.pathAfterWord_eq_some_iff`, `Lexer.scan_after_word`, `Lexer.Run.behind`,
`Lexer.Run.path_first`, `Lexer.Run.exists_path`, `Lexer.Run.covers`,
`paths_of_lex`.
-/
import OpenScad.Proofs.Lexer.Fault
import OpenScad.Proofs.Lexer.Tiling

namespace OpenScad

/-! ### Texts of paths -/

namespace Pattern

theorem matches_many_one {test : Char → Bool} {s : List Char} :
    (many (one test)).Matches s ↔ ∀ c ∈ s, test c = true := by
  refine ⟨forall_of_matches_many, fun h => ?_⟩
  induction s with
  | nil => exact .none
  | cons c s ih =>
    have hrest := ih fun d hd => h d (List.mem_cons_of_mem c hd)
    exact .more (.one (h c List.mem_cons_self)) hrest

theorem matches_some_one {test : Char → Bool} {s : List Char} :
    (Pattern.some (one test)).Matches s ↔ s ≠ [] ∧ ∀ c ∈ s, test c = true := by
  rw [Pattern.some, matches_sequence]
  constructor
  · rintro ⟨u, v, rfl, hu, hv⟩
    obtain ⟨c, rfl, hc⟩ := matches_one.mp hu
    exact ⟨List.cons_ne_nil c v, List.forall_mem_cons.mpr ⟨hc, matches_many_one.mp hv⟩⟩
  · rintro ⟨hne, hall⟩
    obtain ⟨c, s, rfl⟩ := List.exists_cons_of_ne_nil hne
    obtain ⟨hc, hs⟩ := List.forall_mem_cons.mp hall
    exact ⟨[c], s, rfl, .one hc, matches_many_one.mpr hs⟩

end Pattern

namespace TokenKind

/-- The text may stand between the marks of a path: it is not empty, and has no marks, semicolons
and line breaks. -/
structure Inside (inner : List Char) : Prop where
  nonempty : inner ≠ []
  plain : ∀ c ∈ inner, c ∉ ['<', '>', ';', '\r', '\n']

theorem matches_inside {s : List Char} :
    (Pattern.some (noneOf ['<', '>', ';', '\r', '\n'])).Matches s ↔ Inside s := by
  rw [noneOf, Pattern.matches_some_one]
  exact ⟨fun h => ⟨h.1, by simpa using h.2⟩, fun h => ⟨h.nonempty, by simpa using h.plain⟩⟩

/-- **A path is its marks around a text** that may stand there. -/
theorem matches_path_iff {s : List Char} : (pattern .path).Matches s ↔
    ∃ inner, s = '<' :: (inner ++ ['>']) ∧ Inside inner := by
  rw [pattern, pathPattern, Pattern.matches_sequence]
  constructor
  · rintro ⟨u, v, rfl, hu, hv⟩
    obtain ⟨inner, w, rfl, hinner, hw⟩ := Pattern.matches_sequence.mp hv
    rw [Pattern.matches_oneOf_singleton.mp hu, Pattern.matches_oneOf_singleton.mp hw]
    exact ⟨inner, rfl, matches_inside.mp hinner⟩
  · rintro ⟨inner, rfl, hinner⟩
    have hbehind : (Pattern.sequence (.some (noneOf ['<', '>', ';', '\r', '\n']))
        (oneOf ['>'])).Matches (inner ++ ['>']) :=
      .sequence (matches_inside.mpr hinner) (Pattern.matches_oneOf_singleton.mpr rfl)
    exact ⟨['<'], inner ++ ['>'], rfl, Pattern.matches_oneOf_singleton.mpr rfl, hbehind⟩

/-- A text that begins like a path and is longer than two characters is a path. -/
theorem eq_path_of_matches {kind : TokenKind} {s : List Char} (h : kind.pattern.Matches ('<' :: s))
    (hlength : 2 < ('<' :: s).length) : kind = .path := by
  cases hspelling : kind.spelling? with
  | some cs =>
    have hshort : ∀ kind ∈ candidates true, ∀ cs ∈ kind.spelling?, cs.head? = some '<' →
        cs.length ≤ 2 := by decide
    rw [pattern_of_spelling hspelling, Pattern.matches_literal] at h
    have hle := hshort kind (mem_candidates kind) cs hspelling (by rw [← h]; rfl)
    rw [← h] at hle
    omega
  | none =>
    have hpath : beginning? '<' = some .path := by decide
    have hfirst := beginning_of_begins hspelling (Pattern.begins_of_matches h) (by decide)
    exact Option.some.inj (hfirst.symm.trans hpath)

/-- The kinds of tokens that compare for order. -/
def comparisons : List TokenKind := [less, lessEqual, greater, greaterEqual]

/-- The kinds whose texts may have the marks of a path inside. -/
def holdsMarks : List TokenKind := [path, string, lineComment, blockComment]

/-- The marks of a path are the first character of a comparison, or inside a text that may have
them. -/
theorem marks_of_matches {kind : TokenKind} {s : List Char} {c : Char} {j : Nat}
    (h : kind.pattern.Matches s) (hc : c = '<' ∨ c = '>') (hj : s[j]? = some c) :
    kind ∈ holdsMarks ∨ (kind ∈ comparisons ∧ j = 0) := by
  have hmem : c ∈ s := List.mem_of_getElem? hj
  by_cases hcomparison : kind ∈ comparisons
  · -- behind its first character, a comparison has an equals sign at most
    have hspelled : ∀ kind ∈ comparisons, ∃ first more, kind.spelling? = some (first :: more) ∧
        ∀ d ∈ more, d = '=' := by
      simp [comparisons, spelling?]
    obtain ⟨first, more, hspelling, hmore⟩ := hspelled kind hcomparison
    rw [pattern_of_spelling hspelling, Pattern.matches_literal] at h
    subst h
    cases j with
    | zero => exact .inr ⟨hcomparison, rfl⟩
    | succ j =>
      obtain rfl := hmore c (List.mem_of_getElem? hj)
      rcases hc with hc | hc <;> cases hc
  · by_cases hholds : kind ∈ holdsMarks
    · exact .inl hholds
    · have havoids : ∀ kind ∈ candidates true, kind ∉ comparisons → kind ∉ holdsMarks →
          kind.pattern.avoids '<' = true ∧ kind.pattern.avoids '>' = true := by decide
      obtain ⟨hless, hgreater⟩ := havoids kind (mem_candidates kind) hcomparison hholds
      rcases hc with rfl | rfl
      · exact absurd hmem (Pattern.not_mem_of_avoids hless h)
      · exact absurd hmem (Pattern.not_mem_of_avoids hgreater h)

/-- A text that begins with a mark of a path is a path or a comparison. -/
theorem mark_first {kind : TokenKind} {s : List Char} (h : kind.pattern.Matches s)
    (hs : s.head? = some '<' ∨ s.head? = some '>') : kind = .path ∨ kind ∈ comparisons := by
  have hbegins : ∀ kind ∈ candidates true, kind.pattern.begins '<' = true ∨
      kind.pattern.begins '>' = true → kind = .path ∨ kind ∈ comparisons := by decide
  refine hbegins kind (mem_candidates kind) ?_
  rcases hs with hs | hs
  · obtain ⟨rest, rfl⟩ := List.head?_eq_some_iff.mp hs
    exact .inl (Pattern.begins_of_matches h)
  · obtain ⟨rest, rfl⟩ := List.head?_eq_some_iff.mp hs
    exact .inr (Pattern.begins_of_matches h)

end TokenKind

/-- What stands behind the token in its source. -/
def Lexeme.behind (source : List Char) (l : Lexeme) : List Char :=
  source.drop (l.token.offset + l.text.length)

namespace Lexer

open TokenKind

variable {allowed : Bool} {start : Position} {text body gap inner rest : List Char}
  {ls : List Lexeme}

/-! ### The choice at a mark -/

/-- The text between marks goes up to the first closing mark. -/
theorem eq_of_inside {inner' rest' : List Char} (h : Inside inner) (h' : Inside inner')
    (hsame : inner ++ '>' :: rest = inner' ++ '>' :: rest') : inner = inner' ∧ rest = rest' := by
  have front {inner rest : List Char} (h : Inside inner) :
      (inner ++ '>' :: rest).takeWhile (· ≠ '>') = inner := by
    have hplain : ∀ c ∈ inner, decide (c ≠ '>') = true := by
      intro c hc
      have := h.plain c hc
      simp only [List.mem_cons, not_or] at this
      exact decide_eq_true this.2.1
    rw [List.takeWhile_append_of_pos hplain]
    simp
  obtain rfl : inner = inner' := by rw [← front h, hsame, front h']
  exact ⟨rfl, List.tail_eq_of_cons_eq (List.append_cancel_left hsame)⟩

/-- **Where a path may stand and its text does, it is the token.** -/
theorem tokenAt_path (h : Inside inner) :
    tokenAt true ('<' :: (inner ++ '>' :: rest)) = .ok (.path, inner.length + 2) := by
  have hspelled : (pattern .path).Matches ('<' :: (inner ++ ['>'])) :=
    matches_path_iff.mpr ⟨inner, rfl, h⟩
  have hfront : '<' :: (inner ++ ['>']) <+: '<' :: (inner ++ '>' :: rest) := ⟨rest, by simp⟩
  cases hfound : tokenAt true ('<' :: (inner ++ '>' :: rest)) with
  | error n =>
    obtain ⟨-, hnone | ⟨hopen, -⟩⟩ := fault_of_tokenAt hfound (List.cons_ne_nil _ _)
    · exact absurd hspelled (hnone .path _ hfront)
    · cases n <;> cases hopen
  | ok found =>
    obtain ⟨kind, n⟩ := found
    obtain ⟨hle, hmatches⟩ := matches_of_tokenAt hfound
    -- the token is at least as long as the path, so it is a path
    obtain ⟨m, hm, hpath⟩ := exists_longest hfront hspelled
    have hlong : inner.length + 2 ≤ n := by
      have := le_of_longestOf (found_of_tokenAt hfound) .path (mem_candidates _) m hm
      simp only [List.length_cons, List.length_append, List.length_nil] at hpath
      omega
    obtain ⟨n, rfl⟩ : ∃ k, n = k + 1 := Nat.exists_eq_add_one.mpr (by omega)
    have hpos : 0 < inner.length := List.length_pos_iff.mpr h.nonempty
    rw [List.take_succ_cons] at hmatches
    obtain rfl : kind = .path := eq_path_of_matches hmatches (by
      simp only [List.length_cons, List.length_take] at hle ⊢
      omega)
    -- both end with the first closing mark
    obtain ⟨inner', htake, hinside⟩ := matches_path_iff.mp hmatches
    have htake' := (List.cons.inj htake).2
    have hsplit : inner ++ '>' :: rest = inner' ++ '>' :: (inner ++ '>' :: rest).drop n := by
      conv => lhs; rw [← List.take_append_drop n (inner ++ '>' :: rest), htake']
      simp
    obtain ⟨rfl, -⟩ := eq_of_inside h hinside hsplit
    have hlength := congrArg List.length htake'
    simp only [List.length_take, List.length_append, List.length_cons, List.length_nil]
      at hlength hle
    rw [show n = inner.length + 1 by omega]

/-- A path is the token only where it may stand and its text does. -/
theorem inside_of_tokenAt {n : Nat} (h : tokenAt allowed body = .ok (.path, n)) : allowed = true ∧
    ∃ inner rest, body = '<' :: (inner ++ '>' :: rest) ∧ Inside inner := by
  constructor
  · have hcandidate := (mem_of_longestOf (found_of_tokenAt h)).1
    cases allowed with
    | true => rfl
    | false => exact absurd hcandidate (by decide)
  · obtain ⟨inner, htake, hinside⟩ := matches_path_iff.mp (matches_of_tokenAt h).2
    refine ⟨inner, body.drop n, ?_, hinside⟩
    conv => lhs; rw [← List.take_append_drop n body, htake]
    simp

/-! ### The search for a path behind a word -/

/-- Behind blanks, the text goes on with a path. -/
structure PathAhead (text gap inner rest : List Char) : Prop where
  text_eq : text = gap ++ '<' :: (inner ++ '>' :: rest)
  blank : ∀ c ∈ gap, c ∈ [' ', '\t', '\r', '\n', '\x0c']
  inside : Inside inner

theorem endsPath_iff {c : Char} : endsPath c = true ↔ c ∈ ['<', '>', ';', '\r', '\n'] := by
  simp [endsPath, or_assoc]

/-- The search between the marks stops at the closing one. -/
theorem findIdx?_endsPath (h : Inside inner) :
    (inner ++ '>' :: rest).findIdx? endsPath = some inner.length := by
  have hnone : inner.findIdx? endsPath = none := by
    rw [List.findIdx?_eq_none_iff]
    intro c hc
    rw [← Bool.not_eq_true, endsPath_iff]
    exact h.plain c hc
  have hmark : ('>' :: rest).findIdx? endsPath = some 0 := by
    rw [List.findIdx?_cons, if_pos (by decide)]
  rw [List.findIdx?_append, hnone, hmark]
  simp

theorem PathAhead.pathAfterWord_eq (h : PathAhead text gap inner rest) :
    pathAfterWord text = some (gap.length, inner.length + 2) := by
  obtain ⟨rfl, hblank, hinside⟩ := h
  have hdrop : (gap ++ '<' :: (inner ++ '>' :: rest)).dropWhile isBlank =
      '<' :: (inner ++ '>' :: rest) :=
    dropWhile_gap (fun c hc => isBlank_iff.mpr (hblank c hc)) (by simp; decide)
  have hne : inner.length ≠ 0 := fun h => hinside.nonempty (List.length_eq_zero_iff.mp h)
  simp [pathAfterWord, hdrop, findIdx?_endsPath hinside, hne]

theorem ahead_of_pathAfterWord {skipped n : Nat} (h : pathAfterWord text = some (skipped, n)) :
    ∃ gap inner rest, PathAhead text gap inner rest ∧ skipped = gap.length ∧
      n = inner.length + 2 := by
  obtain ⟨gap, body, rfl, hblank, hbody⟩ := exists_gap text
  unfold pathAfterWord at h
  rw [dropWhile_gap hblank hbody] at h
  dsimp only at h
  split at h
  next inner =>
    obtain ⟨close, hclose, h⟩ := Option.bind_eq_some_iff.mp h
    split at h
    · cases h
    · next hmark =>
      obtain ⟨hpos, hshut⟩ := not_or.mp hmark
      obtain ⟨hlt, hend⟩ := List.getElem?_eq_some_iff.mp (not_not.mp hshut)
      obtain ⟨_, _, hbefore⟩ := List.findIdx?_eq_some_iff_getElem.mp hclose
      cases h
      refine ⟨gap, inner.take close, inner.drop (close + 1), ⟨?_, ?_, ?_, ?_⟩, ?_, ?_⟩
      · rw [← hend, ← List.drop_eq_getElem_cons, List.take_append_drop]
      · exact fun c hc => isBlank_iff.mp (hblank c hc)
      · exact List.ne_nil_of_length_pos (by rw [List.length_take]; omega)
      · intro c hc
        obtain ⟨i, hi, rfl⟩ := List.mem_take_iff_getElem.mp hc
        rw [← endsPath_iff]
        exact hbefore i (by omega)
      · simp
      · rw [List.length_take_of_le (Nat.le_of_lt hlt)]
  next => cases h

/-- **The search finds a path where blanks and then its text stand**, and nowhere else. -/
theorem pathAfterWord_eq_some_iff {skipped n : Nat} : pathAfterWord text = some (skipped, n) ↔
    ∃ gap inner rest, PathAhead text gap inner rest ∧ skipped = gap.length ∧
      n = inner.length + 2 := by
  refine ⟨ahead_of_pathAfterWord, ?_⟩
  rintro ⟨gap, inner, rest, h, rfl, rfl⟩
  exact h.pathAfterWord_eq

/-- Where no path stands, the token is the one of any other place. -/
theorem tokenAt_true (h : ∀ inner rest, body = '<' :: (inner ++ '>' :: rest) → ¬ Inside inner) :
    tokenAt true body = tokenAt false body := by
  have hnone : (pattern .path).longest body = none := by
    have hlongest := (pattern .path).longest_matches body
    cases hn : (pattern .path).longest body with
    | none => rfl
    | some n =>
      rw [hn] at hlongest
      obtain ⟨inner, htake, hinside⟩ := matches_path_iff.mp hlongest.2.1
      refine absurd hinside (h inner (body.drop n) ?_)
      conv => lhs; rw [← List.take_append_drop n body, htake]
      simp
  have hsame : longestOf (candidates true) body = longestOf (candidates false) body := by
    rw [candidates, if_pos rfl, candidates, if_neg Bool.false_ne_true, longestOf, hnone]
  rw [tokenAt, tokenAt, hsame]

/-- **What the scanner does behind a word that announces a path:** it cuts out the path that the
search finds there and goes on behind it, or goes on as at any other place. -/
theorem scan_after_word (start : Position) (text : List Char) : scan true start text =
    match pathAfterWord text with
    | none => scan false start text
    | some (skipped, n) => do
      let position := start.past (text.take skipped)
      let value := (text.drop skipped).take n
      let ls ← scan false (position.past value) (text.drop (skipped + n))
      return { kind := .path, token := .starting position (String.ofList value) } :: ls := by
  cases hpath : pathAfterWord text with
  | some found =>
    obtain ⟨skipped, n⟩ := found
    obtain ⟨gap, inner, rest, ⟨rfl, hblank, hinside⟩, rfl, rfl⟩ := ahead_of_pathAfterWord hpath
    rw [scan_gap (fun c hc => isBlank_iff.mpr (hblank c hc)) (by simp; decide) (by simp),
      tokenAt_path hinside]
    simp only [List.take_left, List.drop_left, ← List.drop_drop]
    rfl
  | none =>
    obtain ⟨gap, body, rfl, hblank, hbody⟩ := exists_gap text
    by_cases hne : body = []
    · subst hne
      rw [List.append_nil, scan_blank hblank, scan_blank hblank]
    · have hsame : tokenAt true body = tokenAt false body := by
        refine tokenAt_true fun inner rest hpathText hinside => ?_
        have hahead : PathAhead (gap ++ body) gap inner rest :=
          ⟨by rw [hpathText], fun c hc => isBlank_iff.mp (hblank c hc), hinside⟩
        rw [hahead.pathAfterWord_eq] at hpath
        cases hpath
      rw [scan_gap hblank hbody hne, scan_gap hblank hbody hne, hsame]

/-! ### Runs that begin with a path -/

/-- If a run begins with a path, then a path may stand there and its text does. -/
theorem Run.path_first {m : Lexeme} (h : Run allowed start text (m :: ls)) (hm : m.kind = .path) :
    allowed = true ∧ ∃ gap inner rest, PathAhead text gap inner rest := by
  generalize hls : m :: ls = all at h
  cases h with
  | blank => cases hls
  | @token _ _ gap value behind kind more blank first found later =>
    obtain ⟨rfl, rfl⟩ := List.cons.inj hls
    cases hm
    obtain ⟨hallowed, inner, rest, hbody, hinside⟩ := inside_of_tokenAt found
    exact ⟨hallowed, gap, inner, rest, by rw [hbody], fun c hc => isBlank_iff.mp (blank c hc),
      hinside⟩

/-- **Where a path may stand and its text does, a run begins with it** and goes on behind its
closing mark. -/
theorem Run.exists_path (h : Run true start text ls) (hstart : start.Valid)
    (hpath : PathAhead text gap inner rest) :
    ∃ m more stop, ls = m :: more ∧ m.kind = .path ∧ m.text = '<' :: (inner ++ ['>']) ∧
      m.token.offset = start.offset + gap.length ∧ m.token.endPosition .exact = .ok stop ∧
      Run false stop rest more := by
  obtain ⟨rfl, hblank, hinside⟩ := hpath
  have hgap : ∀ c ∈ gap, isBlank c = true := fun c hc => isBlank_iff.mpr (hblank c hc)
  have hmark : ∀ c ∈ ('<' :: (inner ++ '>' :: rest)).head?, isBlank c = false := by
    intro c hc
    cases hc
    decide
  generalize htext : gap ++ '<' :: (inner ++ '>' :: rest) = text at h
  cases h with
  | blank blank =>
    have := blank '<' (by simp [← htext])
    cases this
  | @token _ _ gap' value behind kind more blank first found later =>
    have hvalue : value ≠ [] := (getLast?_of_tokenAt found).1
    have hhead : ∀ c ∈ (value ++ behind).head?, isBlank c = false := by
      rwa [List.head?_append_of_ne_nil _ hvalue]
    obtain rfl : gap = gap' := by
      rw [← takeWhile_gap hgap hmark, htext, takeWhile_gap blank hhead]
    have hbody := List.append_cancel_left htext
    rw [← hbody, tokenAt_path hinside] at found
    obtain ⟨rfl, hlength⟩ := Prod.mk.inj (Except.ok.inj found)
    have hsplit : '<' :: (inner ++ ['>']) ++ rest = value ++ behind := by simpa using hbody
    obtain ⟨rfl, rfl⟩ := List.append_inj hsplit (by simpa using hlength)
    exact ⟨_, more, _, rfl, rfl, Lexeme.text_starting .path _ _, Position.offset_past start gap,
      Token.endPosition_starting (hstart.past gap) _, later⟩

/-! ### The run behind a token -/

/-- Behind each of its tokens, a run goes on with what stands there. -/
theorem Run.behind (h : Run allowed start text ls) : ∀ front : List Char,
    start = Position.origin.past front → front.getLast? ≠ some '\r' →
    ∀ i l, ls[i]? = some l → ∃ stop, l.token.endPosition .exact = .ok stop ∧
      stop.offset = l.token.offset + l.text.length ∧
      Run l.kind.announcesPath stop (l.behind (front ++ text)) (ls.drop (i + 1)) := by
  intro front hstart hseam
  refine h.induction_behind ?blank ?token front hstart hseam
  case blank => exact fun _ i l hl => nomatch hl
  case token =>
    intro allowed front gap value rest kind ls blank first found hvalue later ih i l hl
    have htext : front ++ (gap ++ (value ++ rest)) = front ++ gap ++ value ++ rest := by simp
    rw [htext]
    cases i with
    | zero =>
      cases hl
      have hbehind : Lexeme.behind (front ++ gap ++ value ++ rest)
          { kind, token := .starting (.past .origin (front ++ gap)) (String.ofList value) } =
            rest := by
        rw [Lexeme.behind, Lexeme.text_starting, Token.starting, Position.offset_origin_past,
          ← List.length_append, List.drop_left]
      refine ⟨_, Token.endPosition_starting (Position.valid_origin.past _) value, ?_, ?_⟩
      · rw [Position.offset_past, Lexeme.text_starting, Token.starting]
      · rw [hbehind, hvalue]
        exact later
    | succ i => exact ih i l hl

/-! ### Where characters stand -/

/-- Every character of a text that is no blank stands in a token. -/
theorem Run.covers (h : Run allowed start text ls) : ∀ front : List Char,
    start = Position.origin.past front → front.getLast? ≠ some '\r' →
    ∀ k c, text[k]? = some c → isBlank c = false →
      ∃ l ∈ ls, ∃ j, l.text[j]? = some c ∧ l.token.offset + j = front.length + k := by
  intro front hstart hseam
  refine h.induction_behind ?blank ?token front hstart hseam
  case blank =>
    intro _ _ _ blank k c hk hc
    rw [blank c (List.mem_of_getElem? hk)] at hc
    cases hc
  case token =>
    intro allowed front gap value rest kind ls blank first found hvalue _ ih k c hk hc
    rcases Nat.lt_or_ge k gap.length with hlt | hge
    · rw [List.getElem?_append_left hlt] at hk
      rw [blank c (List.mem_of_getElem? hk)] at hc
      cases hc
    rw [List.getElem?_append_right hge] at hk
    rcases Nat.lt_or_ge (k - gap.length) value.length with hlt | hge'
    · rw [List.getElem?_append_left hlt] at hk
      refine ⟨_, List.mem_cons_self, k - gap.length, ?_, ?_⟩
      · rwa [Lexeme.text_starting]
      · simp only [Token.starting, Position.offset_origin_past, List.length_append]
        omega
    · rw [List.getElem?_append_right hge'] at hk
      obtain ⟨l, hl, j, hj, hplace⟩ := ih _ c hk hc
      refine ⟨l, List.mem_cons_of_mem _ hl, j, hj, hplace.trans ?_⟩
      simp only [List.length_append]
      omega

end Lexer

theorem TokenKind.announcesPath_iff {kind : TokenKind} :
    kind.announcesPath = true ↔ kind = .useWord ∨ kind = .includeWord := by
  simp [announcesPath]

/-- Where a run goes on behind a word that announces a path and a path stands there, the next token
is that path, and the tokens behind it are those of what stands behind it. -/
theorem exists_path_behind {source gap inner rest : List Char} {ls : List Lexeme} {l : Lexeme}
    {i : Nat} {stop : Position}
    (hrun : Lexer.Run l.kind.announcesPath stop (l.behind source) (ls.drop (i + 1)))
    (hstop : l.token.endPosition .exact = .ok stop)
    (hoffset : stop.offset = l.token.offset + l.text.length)
    (hword : l.kind = .useWord ∨ l.kind = .includeWord)
    (hahead : Lexer.PathAhead (l.behind source) gap inner rest) :
    ∃ m stop, ls[i + 1]? = some m ∧ m.kind = .path ∧ m.text = '<' :: (inner ++ ['>']) ∧
      m.token.offset = l.token.offset + l.text.length + gap.length ∧
      m.token.endPosition .exact = .ok stop ∧ m.behind source = rest ∧
      Lexer.scan false stop rest = .ok (ls.drop (i + 2)) := by
  rw [TokenKind.announcesPath_iff.mpr hword] at hrun
  obtain ⟨m, more, stop', hmore, hkind, htext, hplace, hstop', hlater⟩ :=
    hrun.exists_path (Token.valid_endPosition hstop) hahead
  have hnext : ls[i + 1]? = some m := by rw [← List.head?_drop, hmore, List.head?_cons]
  have hdrop : ls.drop (i + 2) = more := by rw [← List.tail_drop, hmore, List.tail_cons]
  rw [hoffset] at hplace
  refine ⟨m, stop', hnext, hkind, htext, hplace, hstop', ?_, ?_⟩
  · rw [Lexeme.behind, hplace, htext, Nat.add_assoc, ← List.drop_drop]
    have hbehind : source.drop (l.token.offset + l.text.length) =
        gap ++ ('<' :: (inner ++ ['>']) ++ rest) := by
      rw [← Lexeme.behind, hahead.text_eq]
      simp
    rw [hbehind, ← List.append_assoc, ← List.length_append, List.drop_left]
  · rw [hdrop]
    exact Lexer.scan_of_run hlater

/-- **Paths stand right behind the words that announce them, and nowhere else.** The first token
is no path. A later token is one if and only if the token before it is such a word, and blanks and
the text of a path stand behind the word in the source; the token is that text then, and the
tokens go on right behind it. Everywhere else, a token that begins with a mark of a path is a
comparison; and every mark in the source is the first character of one, or in a path, a string
or a comment. -/
theorem paths_of_lex {source : String} {ls : List Lexeme} (h : lex source = .ok ls) :
    (∀ m, ls[0]? = some m → m.kind ≠ .path) ∧
    (∀ i l, ls[i]? = some l →
      ((∃ m, ls[i + 1]? = some m ∧ m.kind = .path) ↔
        (l.kind = .useWord ∨ l.kind = .includeWord) ∧
          ∃ gap inner rest, Lexer.PathAhead (l.behind source.toList) gap inner rest) ∧
      ∀ gap inner rest, l.kind = .useWord ∨ l.kind = .includeWord →
        Lexer.PathAhead (l.behind source.toList) gap inner rest →
        ∃ m stop, ls[i + 1]? = some m ∧ m.kind = .path ∧ m.text = '<' :: (inner ++ ['>']) ∧
          m.token.offset = l.token.offset + l.text.length + gap.length ∧
          m.token.endPosition .exact = .ok stop ∧ m.behind source.toList = rest ∧
          Lexer.scan false stop rest = .ok (ls.drop (i + 2))) ∧
    (∀ l ∈ ls, l.text.head? = some '<' ∨ l.text.head? = some '>' →
      l.kind = .path ∨ l.kind ∈ TokenKind.comparisons) ∧
    ∀ k c, source.toList[k]? = some c → c = '<' ∨ c = '>' →
      ∃ l ∈ ls, ∃ j, l.text[j]? = some c ∧ l.token.offset + j = k ∧
        (l.kind ∈ TokenKind.holdsMarks ∨ (l.kind ∈ TokenKind.comparisons ∧ j = 0)) := by
  have hrun := run_of_lex h
  have hbehind := hrun.behind [] rfl (by simp)
  rw [List.nil_append] at hbehind
  refine ⟨fun m hm hpath => ?_, fun i l hl => ?_, fun l hl hmark => ?_, fun k c hk hc => ?_⟩
  · obtain ⟨more, rfl⟩ := List.head?_eq_some_iff.mp (List.head?_eq_getElem?.trans hm)
    exact absurd (hrun.path_first hpath).1 (by decide)
  · obtain ⟨stop, hstop, hoffset, hlater⟩ := hbehind i l hl
    refine ⟨⟨?_, ?_⟩, fun gap inner rest => exists_path_behind hlater hstop hoffset⟩
    · rintro ⟨m, hm, hkind⟩
      obtain ⟨more, hmore⟩ := List.head?_eq_some_iff.mp (List.head?_drop.trans hm)
      rw [hmore] at hlater
      exact (hlater.path_first hkind).imp_left TokenKind.announcesPath_iff.mp
    · rintro ⟨hword, gap, inner, rest, hahead⟩
      obtain ⟨m, -, hm, hkind, -⟩ := exists_path_behind hlater hstop hoffset hword hahead
      exact ⟨m, hm, hkind⟩
  · exact TokenKind.mark_first (proper_of_lex h l hl).spelled hmark
  · have hblank : Lexer.isBlank c = false := by
      rcases hc with rfl | rfl <;> decide
    obtain ⟨l, hl, j, hj, hplace⟩ := hrun.covers [] rfl (by simp) k c hk hblank
    refine ⟨l, hl, j, hj, by simpa using hplace, ?_⟩
    exact TokenKind.marks_of_matches (proper_of_lex h l hl).spelled hc hj

/-- A path may stand on the line below the word. Behind it, the source is cut as before, and the
marks of an empty path are two comparisons. -/
theorem paths_of_lex_sample :
    let source := "use\n<a b> include <>"
    ∃ ls m stop, lex source = .ok ls ∧ ls[1]? = some m ∧ m.kind = .path ∧
      m.text = "<a b>".toList ∧ m.behind source.toList = " include <>".toList ∧
      Lexer.scan false stop " include <>".toList = .ok (ls.drop 2) ∧
      (∀ l ∈ ls, l.text.head? = some '<' → l.kind ≠ .path → l.kind ∈ TokenKind.comparisons) ∧
      ls.map (·.kind) = [.useWord, .path, .includeWord, .less, .greater] := by
  intro source
  have hcheck : (lex source).toOption.map (fun ls =>
      (ls.map (·.kind), ls[0]?.map fun l => (l.kind, l.behind source.toList))) =
        some ([.useWord, .path, .includeWord, .less, .greater],
          some (.useWord, "\n<a b> include <>".toList)) := by decide +kernel
  obtain ⟨ls, hlex, htokens⟩ := exists_lex hcheck
  simp only [Prod.mk.injEq, Option.map_eq_some_iff] at htokens
  obtain ⟨hkinds, l, hl, hkind, hbehind⟩ := htokens
  have hahead : Lexer.PathAhead (l.behind source.toList) ['\n'] ['a', ' ', 'b']
      " include <>".toList := ⟨hbehind, by simp, by simp, by simp⟩
  obtain ⟨-, hpaths, hmarks, -⟩ := paths_of_lex hlex
  obtain ⟨m, stop, hm, hpath, htext, -, -, hrest, hscan⟩ :=
    (hpaths 0 l hl).2 _ _ _ (.inl hkind) hahead
  exact ⟨ls, m, stop, hlex, hm, hpath, htext, hrest, hscan,
    fun l hl hmark hother => (hmarks l hl (.inl hmark)).resolve_left hother, hkinds⟩

end OpenScad
