/-
# The grammar on tokens that are alike

Tokens are alike if they have one kind and are related, whatever the relation
is; matches are alike if they have one shape and related tokens. The grammar
looks at kinds alone, so it does the same on tokens that are alike, and gives
matches that are alike. Only the tokens up to the furthest failing test need
be so.

Key definitions: `Lexeme.Alike`, `Match.Alike`.
Key theorems: `Grammar.program_tracks`.
-/
import OpenScad.Proofs.Grammar.Longest
import OpenScad.Proofs.Grammar.Tracking

namespace OpenScad

/-! ### Tokens and matches side by side -/

/-- Tokens of one kind that are related. -/
structure Lexeme.Alike (A : Token → Token → Prop) (l l' : Lexeme) : Prop where
  kind : l.kind = l'.kind
  token : A l.token l'.token

/-- Matches of one shape with related tokens. -/
inductive Match.Alike (A : Token → Token → Prop) : Match → Match → Prop where
  | absent : Alike A .absent .absent
  | token {t t' : Token} (token : A t t') : Alike A (.token t) (.token t')
  | group {parts : List (Match × Match)} (parts_alike : ∀ x ∈ parts, Alike A x.1 x.2) :
      Alike A (.group (parts.map (·.1))) (.group (parts.map (·.2)))
  | rule {r : Rule} {parts : List (Match × Match)} (parts_alike : ∀ x ∈ parts, Alike A x.1 x.2) :
      Alike A (.rule r (parts.map (·.1))) (.rule r (parts.map (·.2)))

theorem exists_pairs {α β : Type} {R : α → β → Prop} {as : List α} {bs : List β}
    (h : List.Forall₂ R as bs) :
    ∃ pairs : List (α × β), (∀ x ∈ pairs, R x.1 x.2) ∧ as = pairs.map (·.1) ∧
      bs = pairs.map (·.2) := by
  induction h with
  | nil => exact ⟨[], by simp, rfl, rfl⟩
  | @cons a b _ _ hab _ ih =>
    obtain ⟨pairs, hpairs, rfl, rfl⟩ := ih
    exact ⟨(a, b) :: pairs, List.forall_mem_cons.mpr ⟨hab, hpairs⟩, rfl, rfl⟩

namespace Match

variable {A : Token → Token → Prop} {ms ms' : List Match}

theorem alike_group (h : List.Forall₂ (Alike A) ms ms') : Alike A (.group ms) (.group ms') := by
  obtain ⟨parts, hparts, rfl, rfl⟩ := exists_pairs h
  exact .group hparts

theorem alike_rule {r : Rule} (h : List.Forall₂ (Alike A) ms ms') :
    Alike A (.rule r ms) (.rule r ms') := by
  obtain ⟨parts, hparts, rfl, rfl⟩ := exists_pairs h
  exact .rule hparts

theorem Alike.grouped {m m' : Match} (h : m.Alike A m') : m.grouped.Alike A m'.grouped :=
  alike_group (.cons h .nil)

theorem alike_ofOption {m m' : Option Match} (h : Option.Rel (Alike A) m m') :
    (Match.ofOption m).Alike A (Match.ofOption m') := by
  cases h with
  | none => exact .absent
  | some hm => exact hm

end Match

/-! ### The parsers of the grammar -/

namespace Grammar

variable {A : Token → Token → Prop} {N N' : Nat} {p p' : Parser Match}

/-- Two parsers of matches, one of which tracks the other on tokens of the same kinds. -/
abbrev TracksMatches (A : Token → Token → Prop) (N N' : Nat) (p p' : Parser Match) : Prop :=
  Parser.Tracks (Lexeme.Alike A) (Match.Alike A) N N' p p'

theorem token_tracks (kind : TokenKind) : TracksMatches A N N' (token kind) (token kind) := by
  refine Parser.tracks_accept fun l l' hl => ?_
  rw [hl.kind]
  split
  · exact .some (.token hl.token)
  · exact .none

theorem operator_tracks (kinds : List TokenKind) :
    TracksMatches A N N' (operator kinds) (operator kinds) := by
  refine Parser.tracks_accept fun l l' hl => ?_
  rw [hl.kind]
  split
  · exact .some (Match.Alike.token hl.token).grouped
  · exact .none

theorem terminal_tracks (kind : TokenKind) (r : Rule) :
    TracksMatches A N N' (terminal kind r) (terminal kind r) :=
  (token_tracks kind).map fun _ _ hm => Match.alike_rule (.cons hm .nil)

/-! ### Expressions -/

theorem levelOver_needsToken (h : p.NeedsToken) : ∀ k : Nat, (levelOver p k).NeedsToken
  | 0 => h
  | k + 1 => (levelOver_needsToken h k).bind

theorem binaryLevel_tracks {k : Nat} (hsound : p.Sound (Parses (.level k)))
    (h : TracksMatches A N N' p p') :
    TracksMatches A N N' (binaryLevel p (operators k)) (binaryLevel p' (operators k)) := by
  have hadvances := (tail_sound hsound).advances
    fun u tail ⟨o, v, hu, _⟩ => hu ▸ List.cons_ne_nil o v
  have hneeds (p : Parser Match) : (Parser.bind (operator (operators k)) fun op =>
      .map (fun right => (op, right)) p).NeedsToken := (Parser.needsToken_accept _).bind
  have hmany := Parser.Tracks.many (hneeds p) (hneeds p') hadvances
    ((operator_tracks (A := A) (operators k)).andThen fun op op' hop =>
      h.map (U := fun t t' : Match × Match => t.1.Alike A t'.1 ∧ t.2.Alike A t'.2)
        fun _ _ hm => ⟨hop, hm⟩)
  refine h.andThen fun first first' hfirst => hmany.map fun tails tails' htails => ?_
  refine List.rel_foldl ?_ (Match.alike_rule (.cons hfirst .nil)) htails
  exact fun left left' hleft tail tail' htail =>
    Match.alike_rule (.cons hleft (.cons htail.1 (.cons htail.2 .nil)))

theorem levelOver_tracks (hsound : p.Sound (Parses (.level 0))) (h : TracksMatches A N N' p p') :
    ∀ k : Nat, TracksMatches A N N' (levelOver p k) (levelOver p' k)
  | 0 => h
  | k + 1 => binaryLevel_tracks (levelOver_sound hsound k) (levelOver_tracks hsound h k)

theorem parenthesized_tracks (h : TracksMatches A N N' p p') :
    TracksMatches A (N + 1) (N' + 1) (parenthesized p) (parenthesized p') := by
  refine Parser.Tracks.bind (Parser.advances_accept _) (token_tracks .openParen)
    fun opening opening' hopening => ?_
  refine h.andThen fun inner inner' hinner => (token_tracks .closeParen).map
    fun closing closing' hclosing => ?_
  exact Match.alike_rule (.cons hopening (.cons hinner (.cons hclosing .nil)))

theorem primary_needsToken (e : Parser Match) : (primary e).NeedsToken := by
  refine (Parser.needsToken_choice _ fun p hp => ?_).map
  simp only [List.mem_cons, List.not_mem_nil, or_false] at hp
  rcases hp with rfl | rfl | rfl | rfl | rfl | rfl | rfl
  · exact (Parser.needsToken_accept _).map
  · exact (Parser.needsToken_accept _).map
  · exact (Parser.needsToken_accept _).map
  · exact (Parser.needsToken_accept _).map
  · exact (Parser.needsToken_accept _).map
  · exact (Parser.needsToken_accept _).map
  · exact (Parser.needsToken_accept _).bind

theorem primary_tracks (h : TracksMatches A N N' p p') :
    TracksMatches A (N + 1) (N' + 1) (primary p) (primary p') := by
  refine Parser.Tracks.map (S := Match.Alike A) (Parser.tracks_choice ?_)
    fun _ _ hm => hm.grouped
  exact .cons (terminal_tracks _ _) (.cons (terminal_tracks _ _) (.cons (terminal_tracks _ _)
    (.cons (terminal_tracks _ _) (.cons (terminal_tracks _ _) (.cons (terminal_tracks _ _)
      (.cons (parenthesized_tracks h) .nil))))))

theorem unaryWithin_needsToken (h : p.NeedsToken) :
    ∀ bound : List Lexeme, (unaryWithin p bound).NeedsToken
  | [] => h.map
  | _ :: _ => (Parser.needsToken_accept _).bind.orElse h.map

theorem unaryWithin_tracks (hp : p.NeedsToken) (hp' : p'.NeedsToken)
    (h : TracksMatches A N N' p p') : ∀ bound bound' : List Lexeme, bound.length ≤ N →
      bound'.length ≤ N' →
      TracksMatches A bound.length bound'.length (unaryWithin p bound) (unaryWithin p' bound')
  | [], bound', _, _ =>
    (unaryWithin_needsToken hp _).tracks (unaryWithin_needsToken hp' _) (.inl rfl)
  | bound, [], _, _ =>
    (unaryWithin_needsToken hp _).tracks (unaryWithin_needsToken hp' _) (.inr rfl)
  | b :: bound, b' :: bound', hN, hN' => by
    have later := unaryWithin_tracks hp hp' h bound bound' (Nat.le_of_succ_le hN)
      (Nat.le_of_succ_le hN')
    refine Parser.Tracks.orElse ?_
      ((h.shorter hN hN').map fun _ _ hm => Match.alike_rule (.cons hm .nil))
    refine Parser.Tracks.bind (Parser.advances_accept _) (operator_tracks prefixes)
      fun op op' hop => later.map fun _ _ hm => ?_
    exact Match.alike_rule (.cons hop (.cons hm .nil))

theorem unary_needsToken (h : p.NeedsToken) : (unary p).NeedsToken :=
  ⟨fun i ls => (unaryWithin_needsToken h ls).le_furthest i ls,
    fun i => (unaryWithin_needsToken h []).at_nil i⟩

theorem unary_tracks (hp : p.NeedsToken) (hp' : p'.NeedsToken) (h : TracksMatches A N N' p p') :
    TracksMatches A N N' (unary p) (unary p') :=
  Parser.tracks_of_within (unaryWithin p) (unaryWithin p') (unaryWithin_tracks hp hp' h)

theorem expressionWithin_needsToken : ∀ bound : List Lexeme, (expressionWithin bound).NeedsToken
  | [] => Parser.needsToken_fail
  | b :: bound => by
    rw [expressionWithin_cons]
    exact levelOver_needsToken (unary_needsToken (primary_needsToken _)) 6

theorem expressionWithin_tracks : ∀ bound bound' : List Lexeme,
    TracksMatches A bound.length bound'.length (expressionWithin bound) (expressionWithin bound')
  | [], bound' =>
    (expressionWithin_needsToken _).tracks (expressionWithin_needsToken _) (.inl rfl)
  | bound, [] =>
    (expressionWithin_needsToken _).tracks (expressionWithin_needsToken _) (.inr rfl)
  | b :: bound, b' :: bound' => by
    rw [expressionWithin_cons, expressionWithin_cons]
    have operand := unary_tracks (primary_needsToken _) (primary_needsToken _)
      (primary_tracks (expressionWithin_tracks bound bound'))
    exact levelOver_tracks (operand_sound bound 0) operand 6

theorem expression_tracks : TracksMatches A N N' expression expression :=
  Parser.tracks_of_within expressionWithin expressionWithin
    fun bound bound' _ _ => expressionWithin_tracks bound bound'

/-! ### Statements -/

theorem assignment_tracks : TracksMatches A N N' assignment assignment := by
  refine (terminal_tracks .identifier .identifier).andThen fun name name' hname => ?_
  refine (token_tracks .assign).andThen fun equals equals' hequals => ?_
  refine expression_tracks.andThen fun value value' hvalue => ?_
  refine (token_tracks .semicolon).map fun semicolon semicolon' hsemicolon => ?_
  exact Match.alike_rule (.cons hname (.cons hequals (.cons hvalue (.cons hsemicolon .nil))))

theorem pathStatement_tracks (keyword : TokenKind) (r : Rule) :
    TracksMatches A N N' (pathStatement keyword r) (pathStatement keyword r) := by
  refine (token_tracks keyword).andThen fun word word' hword => ?_
  refine (terminal_tracks .path .path).andThen fun file file' hfile => ?_
  refine (token_tracks .semicolon).optional.map fun semicolon semicolon' hsemicolon => ?_
  exact Match.alike_rule (.cons hword (.cons hfile (.cons (Match.alike_ofOption hsemicolon) .nil)))

theorem block_tracks (hp : p.NeedsToken) (hp' : p'.NeedsToken) (hc : p.Advances 1)
    (h : TracksMatches A N N' p p') :
    TracksMatches A (N + 1) (N' + 1) (block p) (block p') := by
  refine Parser.Tracks.bind (Parser.advances_accept _) (token_tracks .openBrace)
    fun opening opening' hopening => ?_
  refine (Parser.Tracks.many hp hp' hc h).andThen fun statements statements' hstatements => ?_
  refine (token_tracks .closeBrace).map fun closing closing' hclosing => ?_
  exact Match.alike_rule (.cons hopening (.cons (Match.alike_group hstatements)
    (.cons hclosing .nil)))

theorem statementWithin_needsToken : ∀ bound : List Lexeme, (statementWithin bound).NeedsToken
  | [] => Parser.needsToken_fail
  | b :: bound => by
    rw [statementWithin_cons, recogniser]
    refine (Parser.needsToken_choice _ fun p hp => ?_).map
    simp only [statementRules, List.map_cons, List.map_nil, List.mem_cons, List.not_mem_nil,
      or_false] at hp
    rcases hp with rfl | rfl | rfl | rfl | rfl | rfl
    · exact (Parser.needsToken_accept _).bind
    · exact (Parser.needsToken_accept _).bind
    · exact (Parser.needsToken_accept _).map.bind
    · exact (Parser.needsToken_accept _).bind
    · exact (Parser.needsToken_accept _).map
    · exact (Parser.needsToken_accept _).map

theorem advances_of_sound {n : Nonterminal} (h : p.Sound (Parses n)) : p.Advances 1 :=
  h.advances fun _ _ hm => hm.phrase.ne_nil

theorem statementWithin_tracks : ∀ bound bound' : List Lexeme,
    TracksMatches A bound.length bound'.length (statementWithin bound) (statementWithin bound')
  | [], bound' =>
    (statementWithin_needsToken _).tracks (statementWithin_needsToken _) (.inl rfl)
  | bound, [] =>
    (statementWithin_needsToken _).tracks (statementWithin_needsToken _) (.inr rfl)
  | b :: bound, b' :: bound' => by
    have inner := block_tracks (statementWithin_needsToken _) (statementWithin_needsToken _)
      (advances_of_sound (statementWithin_sound bound))
      (statementWithin_tracks bound bound')
    refine Parser.Tracks.map (S := Match.Alike A) (Parser.tracks_choice ?_)
      fun _ _ hm => Match.alike_rule (.cons hm.grouped .nil)
    exact .cons (pathStatement_tracks _ _) (.cons (pathStatement_tracks _ _)
      (.cons assignment_tracks (.cons inner (.cons (terminal_tracks _ _)
        (.cons (terminal_tracks _ _) .nil)))))

theorem statement_tracks : TracksMatches A N N' statement statement :=
  Parser.tracks_of_within statementWithin statementWithin
    fun bound bound' _ _ => statementWithin_tracks bound bound'

theorem statement_needsToken : statement.NeedsToken :=
  ⟨fun i ls => (statementWithin_needsToken ls).le_furthest i ls,
    fun i => (statementWithin_needsToken []).at_nil i⟩

/-- **The program parser does on like tokens what it does on others**, as long as they are
alike up to the furthest failing test. -/
theorem program_tracks : TracksMatches A N N' program program := by
  have hstatement : TracksMatches A N N' statement statement := statement_tracks
  refine (hstatement.many statement_needsToken statement_needsToken
    (advances_of_sound statement_sound)).andThen fun statements statements' hstatements => ?_
  exact Parser.tracks_atEnd.map fun _ _ _ => Match.alike_rule
    (.cons (Match.alike_group hstatements) .nil)

end Grammar
end OpenScad
