/-
# The first place without a token

A source that is not cut into tokens is cut up to a place, and the error is about
that place (`fault_of_lex`). What comes before the place is cut on its own, since
no token needs what stands behind it, and it leads to the error's position. At
the place, no text of any kind begins, or a comment is opened that nothing
closes.

That a shorter text would do is never overlooked: the choice at a place fails
only where no front of what is left has a pattern. There are two patterns which
are not tried there. A path is tried only behind a word that announces one, but
where a path begins, so does `<`. And where the mark of a comment stands, `/` is
not taken for a division, but the comment must be closed.

Key definitions: `Lexer.Stuck`.
Key theorems: `TokenKind.exists_closesAtEnd`, `Lexer.fault_of_tokenAt`,
`Lexer.stuck_of_scan`, `Lexer.Stuck.run`, `fault_of_lex`.
-/
import OpenScad.Proofs.Lexer.Layout

namespace OpenScad

/-! ### Comments that are not closed -/

namespace TokenKind

/-- Up to its first closing mark, a text ends with a closing mark and has none before. -/
theorem exists_closesAtEnd {s : List Char} (h : ['*', '/'] <:+: s) :
    ∃ front, front <+: s ∧ ClosesAtEnd front := by
  induction s with
  | nil => exact absurd (List.infix_nil.mp h) (by simp)
  | cons c s ih =>
    by_cases hmark : c = '*' ∧ s.head? = some '/'
    · obtain ⟨rfl, hslash⟩ := hmark
      obtain ⟨rest, rfl⟩ := List.head?_eq_some_iff.mp hslash
      exact ⟨['*', '/'], List.prefix_append ['*', '/'] rest, closesAtEnd_mark.mpr rfl⟩
    · -- the first mark is not here, so it is behind
      have hlater : ['*', '/'] <:+: s := by
        obtain hfront | hlater := List.infix_cons_iff.mp h
        · obtain ⟨rest, hrest⟩ := hfront
          obtain ⟨rfl, rfl⟩ := List.cons.inj hrest
          exact absurd ⟨rfl, rfl⟩ hmark
        · exact hlater
      obtain ⟨front, hfront, hcloses⟩ := ih hlater
      refine ⟨c :: front, List.cons_prefix_cons.mpr ⟨rfl, hfront⟩, ?_⟩
      have hhead : ¬(c = '*' ∧ front.head? = some '/') := by
        rintro ⟨rfl, hslash⟩
        obtain ⟨rest, rfl⟩ := hfront
        obtain ⟨more, rfl⟩ := List.head?_eq_some_iff.mp hslash
        exact hmark ⟨rfl, rfl⟩
      exact (closesAtEnd_cons hhead).mpr hcloses

/-- Where the mark of a comment stands and no comment, nothing closes it. -/
theorem not_closed_of_longest {s : List Char}
    (h : (pattern .blockComment).longest ('/' :: '*' :: s) = none) : ¬ ['*', '/'] <:+: s := by
  intro hmark
  obtain ⟨body, hbody, hcloses⟩ := exists_closesAtEnd hmark
  have hcomment : (pattern .blockComment).Matches ('/' :: '*' :: body) :=
    matches_blockComment_iff.mpr ⟨body, rfl, hcloses⟩
  have hfront : '/' :: '*' :: body <+: '/' :: '*' :: s := by
    simpa [List.cons_prefix_cons] using hbody
  obtain ⟨n, hn, -⟩ := Lexer.exists_longest hfront hcomment
  rw [h] at hn
  cases hn

end TokenKind

namespace Lexer

open TokenKind

variable {allowed : Bool} {start : Position} {source pre body : List Char} {e : LexError} {n : Nat}

/-! ### Places without a token -/

/-- Where no kind that may stand anywhere has a text, no kind has one: a path begins like `<`. -/
theorem not_matches_of_longestOf (h : longestOf (candidates allowed) body = none)
    (kind : TokenKind) {front : List Char} (hfront : front <+: body) :
    ¬ kind.pattern.Matches front := by
  have hnone : ∀ other ∈ everywhere, ∀ text, text <+: body → ¬ other.pattern.Matches text := by
    intro other hother text htext hmatch
    have hcandidate : other ∈ candidates allowed := by
      unfold candidates
      split
      · exact List.mem_cons_of_mem _ hother
      · exact hother
    obtain ⟨m, hm, -⟩ := exists_longest htext hmatch
    rw [longest_eq_none_of_longestOf h other hcandidate] at hm
    cases hm
  intro hmatch
  by_cases hpath : kind = .path
  · subst hpath
    obtain ⟨inner, rfl⟩ := matches_path hmatch
    have hless : (pattern .less).Matches ['<'] := Pattern.matches_literal.mpr rfl
    exact hnone .less (by decide) ['<'] ((List.prefix_append _ _).trans hfront) hless
  · have hmem : kind ∈ everywhere := by
      cases kind <;> first | decide | exact absurd rfl hpath
    exact hnone kind hmem front hfront hmatch

/-- An error shows one character at least. -/
theorem faultLength_pos (source : List Char) : 0 < faultLength source := by
  unfold faultLength
  have hl := stringFront.longest_matches source
  cases hr : stringFront.longest source with
  | none => exact Nat.one_pos
  | some n =>
    rw [hr] at hl
    have hne := Pattern.ne_nil_of_matches (by decide) hl.2.1
    cases n with
    | zero => simp at hne
    | succ n => exact Nat.succ_pos n

/-- **The choice at a place fails** only where no front of what is left has a pattern, or where a
comment is opened and not closed. -/
theorem fault_of_tokenAt (h : tokenAt allowed body = .error n) (hne : body ≠ []) :
    body.take n ≠ [] ∧
      ((∀ (kind : TokenKind) (front : List Char), front <+: body → ¬ kind.pattern.Matches front) ∨
        (body.take n = ['/', '*'] ∧ ¬ ['*', '/'] <:+: body.drop n)) := by
  unfold tokenAt at h
  split at h
  · rename_i hopen
    cases h
    obtain ⟨rest, rfl⟩ := List.isPrefixOf_iff_prefix.mp hopen.1
    have hnone := Option.isNone_iff_eq_none.mp hopen.2
    exact ⟨by simp, .inr ⟨rfl, not_closed_of_longest hnone⟩⟩
  · split at h
    · cases h
    · rename_i hnone
      cases h
      have hpos := faultLength_pos body
      have htake : body.take (faultLength body) ≠ [] := by
        intro hnil
        obtain hzero | hnil := List.take_eq_nil_iff.mp hnil
        · omega
        · exact hne hnil
      exact ⟨htake, .inl fun kind front hfront => not_matches_of_longestOf hnone kind hfront⟩

/-! ### Texts that are cut up to a place -/

/-- How a text that starts at a position is cut up to a body without a token, where `allowed` says
whether a path may come first. -/
inductive Stuck : Bool → Position → (pre body : List Char) → LexError → Prop where
  | here {allowed : Bool} {start : Position} {gap body : List Char} {n : Nat}
      (blank : ∀ c ∈ gap, isBlank c = true) (nonempty : body ≠ [])
      (fault : tokenAt allowed body = .error n) :
      Stuck allowed start gap body
        { text := String.ofList (body.take n), position := start.past gap }
  | later {allowed : Bool} {start : Position} {gap value pre body : List Char} {kind : TokenKind}
      {e : LexError} (blank : ∀ c ∈ gap, isBlank c = true)
      (first : ∀ c ∈ value.head?, isBlank c = false)
      (found : tokenAt allowed (value ++ (pre ++ body)) = .ok (kind, value.length))
      (later : Stuck kind.announcesPath ((start.past gap).past value) pre body e) :
      Stuck allowed start (gap ++ (value ++ pre)) body e

/-- Where the scanner gives an error, the source is cut up to a place. -/
theorem stuck_of_scan (h : scan allowed start source = .error e) :
    ∃ pre body, source = pre ++ body ∧ Stuck allowed start pre body e := by
  induction hn : source.length using Nat.strongRecOn generalizing allowed start source with
  | _ n ih =>
  obtain ⟨gap, body, rfl, hblank, hbody⟩ := exists_gap source
  by_cases hne : body = []
  · subst hne
    rw [List.append_nil, scan_blank hblank] at h
    cases h
  · rw [scan_gap hblank hbody hne] at h
    cases hfound : tokenAt allowed body with
    | error k =>
      rw [hfound] at h
      cases h
      exact ⟨gap, body, rfl, .here hblank hne hfound⟩
    | ok found =>
      obtain ⟨kind, k⟩ := found
      rw [hfound] at h
      dsimp only at h
      cases hlater : scan kind.announcesPath ((start.past gap).past (body.take k))
          (body.drop k) with
      | ok later =>
        rw [hlater] at h
        cases h
      | error fault =>
        rw [hlater] at h
        cases h
        have hpos := pos_of_tokenAt hfound
        have hle := (matches_of_tokenAt hfound).1
        obtain ⟨pre, rest, hrest, hstuck⟩ := ih _
          (by simp only [List.length_append, List.length_drop] at hn ⊢; omega) hlater rfl
        have hsplit : body = body.take k ++ (pre ++ rest) := by
          rw [← hrest, List.take_append_drop]
        have hlength : (body.take k).length = k := List.length_take_of_le hle
        have hfirst : ∀ c ∈ (body.take k).head?, isBlank c = false := by
          rw [List.head?_take, if_neg (by omega)]
          exact hbody
        refine ⟨gap ++ (body.take k ++ pre), rest, ?_, .later hblank hfirst ?_ hstuck⟩
        · rw [List.append_assoc, List.append_assoc, ← hsplit]
        · rwa [← hsplit, hlength]

/-- What comes before the place is cut into tokens on its own. -/
theorem Stuck.run (h : Stuck allowed start pre body e) : ∃ ls, Run allowed start pre ls := by
  induction h with
  | here blank => exact ⟨[], .blank blank⟩
  | later blank first found _ ih =>
    obtain ⟨ls, hrun⟩ := ih
    exact ⟨_, .token blank first (tokenAt_within found) hrun⟩

/-- What comes before the place leads to the position of the error. -/
theorem Stuck.position_eq (h : Stuck allowed start pre body e) :
    ∀ front : List Char, start = Position.origin.past front → front.getLast? ≠ some '\r' →
      e.position = Position.origin.past (front ++ pre) := by
  induction h with
  | here blank =>
    intro front hstart hseam
    rw [hstart]
    exact (Position.past_append _ fun hcr => absurd hcr hseam).symm
  | @later allowed start gap value pre body kind e blank first found _ ih =>
    intro front hstart hseam
    obtain ⟨hgap, hvalue, hlast⟩ := past_gap_token hstart hseam first found
    have htext : front ++ (gap ++ (value ++ pre)) = front ++ gap ++ value ++ pre := by simp
    rw [htext]
    rw [hgap] at ih
    exact ih _ hvalue hlast

/-- The error is that of the choice at the place. -/
theorem Stuck.fault (h : Stuck allowed start pre body e) : body ≠ [] ∧
    ∃ allowed' n, tokenAt allowed' body = .error n ∧ e.text = String.ofList (body.take n) := by
  induction h with
  | @here allowed _ _ _ n _ nonempty fault => exact ⟨nonempty, allowed, n, fault, rfl⟩
  | later _ _ _ _ ih => exact ih

end Lexer

/-- **An error is about the first place without a token.** What comes before the place is cut into
tokens and leads to the error's position. At the place, no text of any kind begins, or a comment is
opened that nothing closes. -/
theorem fault_of_lex {source : String} {e : LexError} (h : lex source = .error e) :
    ∃ pre post : String, source = pre ++ e.text ++ post ∧ e.text ≠ "" ∧
      (∃ ls, lex pre = .ok ls) ∧ e.position = Position.origin.past pre.toList ∧
      ((∀ (kind : TokenKind) (front : List Char), front <+: (e.text ++ post).toList →
          ¬ kind.pattern.Matches front) ∨
        (e.text = "/*" ∧ ¬ ['*', '/'] <:+: post.toList)) := by
  obtain ⟨pre, body, hsource, hstuck⟩ := Lexer.stuck_of_scan h
  obtain ⟨hne, allowed, n, hfault, htext⟩ := hstuck.fault
  obtain ⟨hshown, hcause⟩ := Lexer.fault_of_tokenAt hfault hne
  obtain ⟨ls, hrun⟩ := hstuck.run
  have hposition := hstuck.position_eq [] rfl (by simp)
  have hbody : (e.text ++ String.ofList (body.drop n)).toList = body := by
    rw [String.toList_append, htext, String.toList_ofList, String.toList_ofList,
      List.take_append_drop]
  refine ⟨String.ofList pre, String.ofList (body.drop n), ?_, ?_, ⟨ls, ?_⟩, ?_, ?_⟩
  · apply String.toList_injective
    rw [String.append_assoc, String.toList_append, hbody, String.toList_ofList, hsource]
  · rintro hempty
    rw [hempty] at htext
    exact hshown (by simpa using congrArg String.toList htext.symm)
  · rw [lex, String.toList_ofList]
    exact Lexer.scan_of_run hrun
  · rw [String.toList_ofList]
    exact hposition
  · rw [hbody, String.toList_ofList]
    obtain hnone | ⟨hopen, hclosed⟩ := hcause
    · exact .inl hnone
    · exact .inr ⟨by rw [htext, hopen], hclosed⟩

/-- A comment that is left open is at fault from its mark on, behind a path and a number. -/
theorem fault_of_lex_sample :
    let e : LexError := { text := "/*", position := { line := 2, column := 3, offset := 10 } }
    lex "use <a>\n1 /* *" = .error e ∧
      ∃ pre post : String, "use <a>\n1 /* *" = pre ++ e.text ++ post ∧ e.text ≠ "" ∧
        (∃ ls, lex pre = .ok ls) ∧ e.position = Position.origin.past pre.toList ∧
        ((∀ (kind : TokenKind) (front : List Char), front <+: (e.text ++ post).toList →
            ¬ kind.pattern.Matches front) ∨
          (e.text = "/*" ∧ ¬ ['*', '/'] <:+: post.toList)) := by
  intro e
  have hfault : lex "use <a>\n1 /* *" = .error e := by decide +kernel
  exact ⟨hfault, fault_of_lex hfault⟩

end OpenScad
