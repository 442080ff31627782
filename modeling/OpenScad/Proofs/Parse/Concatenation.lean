/-
# Sources behind one another

Two sources that parse also parse with a line feed between them, to the
statements of the first and behind them those of the second at their places
(`parse_append`).

Each stage works on the second source as if it stood alone. No token looks past
the line feed. Behind the first source no bracket is open and no prefix operator
waits, so that the nesting of the second is counted from zero. Statements behind
statements are a program, and a program has one match only. The second source's
tokens stand at other places, but the grammar and the rules make the same of
them, at those places.

Key definitions: `Grammar.Statements`.
Key theorems: `Grammar.Statements.append`, `Grammar.Statements.moved`,
`parse_append`.
-/
import OpenScad.Proofs.Grammar.Unambiguous
import OpenScad.Proofs.Lexer.Joint
import OpenScad.Proofs.Parse.Nesting
import OpenScad.Proofs.Parse.Stages
import OpenScad.Proofs.Tree.Reduction
import OpenScad.Proofs.Tree.Spans

namespace OpenScad

/-! ### The end of a phrase -/

namespace Grammar

/-- No phrase ends with a word that announces a path. -/
theorem Parses.last {n : Nonterminal} {u : List Lexeme} {m : Match} (h : Parses n u m) :
    ∀ l ∈ u.getLast?, l.kind.announcesPath = false := by
  have single {kinds : List TokenKind} {l : Lexeme} (hkinds : ∀ k ∈ kinds, k.announcesPath = false)
      (hl : l.kind ∈ kinds) : ∀ x ∈ [l].getLast?, x.kind.announcesPath = false := by
    intro x hx
    cases hx
    exact hkinds _ hl
  have closed {u : List Lexeme} {c : Lexeme} (hc : c.kind.announcesPath = false) :
      ∀ x ∈ (u ++ [c]).getLast?, x.kind.announcesPath = false := by
    intro x hx
    rw [List.getLast?_concat] at hx
    cases hx
    exact hc
  induction h with
  | literal rule => exact single (by decide) (kind_mem_of_rule rule)
  | comment rule => exact single (by decide) (kind_mem_of_rule rule)
  | @parentheses o c u _ _ _ closing _ =>
    rw [← List.cons_append]
    exact closed (by rw [closing]; rfl)
  | operand _ ih => exact ih
  | tighter _ ih => exact ih
  | @unary o u _ _ operand ih =>
    rw [← List.singleton_append, List.getLast?_append_of_ne_nil [o] operand.phrase.ne_nil]
    exact ih
  | @binary _ u v o _ _ _ _ right _ ihr =>
    rw [List.append_cons, List.getLast?_append_of_ne_nil (u ++ [o]) right.phrase.ne_nil]
    exact ihr
  | @assignment name equals semicolon u _ _ _ _ semicolon_kind _ =>
    rw [← List.cons_append, ← List.cons_append]
    exact closed (by rw [semicolon_kind]; rfl)
  | @path word file semicolon _ _ file_kind semicolon_kind =>
    cases semicolon with
    | none => exact closed (u := [word]) (by rw [file_kind]; rfl)
    | some s => exact closed (u := [word, file]) (by rw [semicolon_kind s rfl]; rfl)
  | @block o c parts _ _ closing _ =>
    rw [← List.cons_append]
    exact closed (by rw [closing]; rfl)

end Grammar

/-! ### Trees at their places -/

section Moved

variable (joint : Position)

/-- A token with valid coordinates, and the same token at its place behind another text. -/
def Token.MovesTo (t t' : Token) : Prop :=
  t' = t.moved joint ∧ ∃ p, t.position = .ok p

theorem Token.StandsAt.moved {joint p : Position} {t : Token} (h : t.StandsAt p) :
    (t.moved joint).StandsAt (p.moved joint) where
  valid := ⟨Nat.le_add_right_of_le h.valid.one_le_line, h.valid.one_le_column⟩
  line := congrArg (· + (joint.line - 1)) h.line
  column := h.column
  offset := congrArg (· + joint.offset) h.offset

/-- A position, and the same position behind another text. -/
def Position.MovesTo (p p' : Position) : Prop := p' = p.moved joint

theorem tokensRelate_moved :
    TokensRelate (Token.MovesTo joint) (Position.MovesTo joint) .exact .exact := by
  have positions {t t' : Token} (h : t.MovesTo joint t') :
      ∃ p, t.position = .ok p ∧ t'.position = .ok (p.moved joint) := by
    obtain ⟨rfl, p, hp⟩ := h
    have hstands : (t.moved joint).StandsAt (p.moved joint) := (Token.standsAt_of_position hp).moved
    exact ⟨p, hp, hstands.position⟩
  constructor
  · rintro t t' ⟨rfl, -⟩
    rfl
  · intro t t' h
    obtain ⟨p, hp, hp'⟩ := positions h
    rw [hp, hp']
    exact .ok rfl
  · intro t t' h
    obtain ⟨p, hp, hp'⟩ := positions h
    have htext : t'.rawText = t.rawText := by
      obtain ⟨rfl, -⟩ := h
      rfl
    rw [Token.endPosition_of_position hp, Token.endPosition_of_position hp', htext]
    exact .ok (Position.past_moved p joint _)

variable {joint}

theorem Span.Alike.eq_moved {s t : Span} (h : s.Alike (Position.MovesTo joint) t) :
    t = s.moved joint := by
  have endpoints {x y : Option Position} (h : Option.Rel (Position.MovesTo joint) x y) :
      y = x.map (·.moved joint) := by
    cases h with
    | none => rfl
    | some hp => exact congrArg some hp
  obtain ⟨start, stop⟩ := t
  rw [Span.moved, ← endpoints h.start, ← endpoints h.stop]

/-- A tree that is alike but for moved positions is the moved tree. -/
theorem Node.Alike.eq_moved {n n' : Node} (h : n.Alike (Position.MovesTo joint) n') :
    n' = n.moved joint := by
  induction h with
  | @leaf node s t children span =>
    rw [span.eq_moved]
    cases node with
    | block statements =>
      obtain rfl : statements = [] := children
      rfl
    | number => rfl
    | string => rfl
    | path => rfl
    | boolean => rfl
    | identifier => rfl
    | undefined => rfl
    | lineComment => rfl
    | blockComment => rfl
    | _ => cases children
  | assignment _ _ span ihn ihv => rw [ihn, ihv, span.eq_moved, Node.moved]
  | @block pairs s t _ span ih =>
    have hpairs : pairs.map (·.2) = (pairs.map (·.1)).map (·.moved joint) := by
      rw [List.map_map]
      exact List.map_congr_left ih
    rw [Node.moved, Node.movedAll_eq, ← hpairs, span.eq_moved]
  | binaryOperator _ _ span ihl ihr => rw [ihl, ihr, span.eq_moved, Node.moved]
  | unaryOperator _ span ih => rw [ih, span.eq_moved, Node.moved]
  | usePath _ span ih => rw [ih, span.eq_moved, Node.moved]
  | includePath _ span ih => rw [ih, span.eq_moved, Node.moved]

end Moved

/-! ### Statements and their nodes -/

/-- The endpoints of a program are the start of its first statement and the end of its last. -/
theorem Rule.endpoints_of_spanOf {nodes : List Node} {span : Span} (h : spanOf nodes = .ok span) :
    span.start = nodes.head?.bind (·.span.start) ∧
      span.stop = nodes.getLast?.bind (·.span.stop) := by
  unfold spanOf at h
  split at h
  · rename_i first last hfirst hlast
    obtain ⟨start, hstart, h⟩ := exists_of_bind_eq_ok h
    obtain ⟨stop, hstop, h⟩ := exists_of_bind_eq_ok h
    cases h
    rw [hfirst, hlast]
    exact ⟨(Node.endpoint_of_placed hstart).symm, (Node.endpoint_of_placed hstop).symm⟩
  · rename_i hends
    cases h
    cases nodes with
    | nil => exact ⟨rfl, rfl⟩
    | cons first rest =>
      exact absurd List.getLast?_cons (hends first _ rfl)

namespace Grammar

/-- The tokens are those of statements, which reduce to the nodes. -/
def Statements (ls : List Lexeme) (nodes : List Node) : Prop :=
  ∃ parts : List (List Lexeme × Match), (∀ x ∈ parts, Parses .statement x.1 x.2) ∧
    ls = (parts.map (·.1)).flatten ∧ Match.ReduceAll .exact (parts.map (·.2)) (nodes.map .node)

variable {ls more : List Lexeme} {nodes others : List Node} {source : String} {joint : Position}

theorem Statements.append (h : Statements ls nodes) (h' : Statements more others) :
    Statements (ls ++ more) (nodes ++ others) := by
  obtain ⟨parts, hparts, rfl, hnodes⟩ := h
  obtain ⟨parts', hparts', rfl, hothers⟩ := h'
  refine ⟨parts ++ parts', List.forall_mem_append.mpr ⟨hparts, hparts'⟩, by simp, ?_⟩
  rw [List.map_append, List.map_append]
  exact hnodes.append hothers

/-- The match of a program reduces to a block of its statements, which span it. -/
theorem IsProgram.statements {m : Match} (h : IsProgram ls m) (hls : ∀ l ∈ ls, l.Proper) :
    ∃ nodes span, Statements ls nodes ∧ Rule.spanOf nodes = .ok span ∧
      m.reduce .exact = .ok (.node (.block nodes span)) := by
  obtain ⟨parts, hparts, rfl, rfl⟩ := h
  obtain ⟨built, -, hbuilt, hnodes⟩ := exists_built fun x hx => (hparts x hx).builds fun l hl =>
    hls l (List.mem_flatten_of_mem (List.mem_map_of_mem hx) hl)
  obtain ⟨span, hspan⟩ := exists_spanOf hbuilt
  exact ⟨built.map (·.2), span, ⟨parts, hparts, rfl, hnodes⟩, hspan, hnodes.program hspan⟩

/-- The nodes of statements are determined by their tokens. -/
theorem Statements.unique (h : Statements ls nodes) (h' : Statements ls others) :
    nodes = others := by
  obtain ⟨parts, hparts, hls, hnodes⟩ := h
  obtain ⟨parts', hparts', hls', hothers⟩ := h'
  have hmatch := IsProgram.unique ⟨parts, hparts, hls, rfl⟩ ⟨parts', hparts', hls', rfl⟩
  simp only [Match.rule.injEq, List.cons.injEq, Match.group.injEq, and_true, true_and] at hmatch
  rw [hmatch] at hnodes
  exact List.map_injective_iff.mpr (fun _ _ h => Element.node.inj h) (hnodes.unique hothers)

/-- A source has the tree of its statements. -/
theorem statements_of_parse {root : Node} (h : parse source = .ok root) :
    ∃ ls nodes span, lex source = .ok ls ∧ Nesting.tooDeep? ls = none ∧ Statements ls nodes ∧
      root = .block nodes span := by
  obtain ⟨ls, m, hlex, hdeep, hrun, hreduce⟩ := match_of_parse h
  obtain ⟨nodes, span, hnodes, -, hroot⟩ := (program_sound hrun).statements (proper_of_lex hlex)
  rw [hreduce] at hroot
  cases hroot
  exact ⟨ls, nodes, span, hlex, hdeep, hnodes, rfl⟩

/-- A source of statements that do not nest too deep has a tree. -/
theorem Statements.parse (h : Statements ls nodes) (hlex : lex source = .ok ls)
    (hdeep : Nesting.tooDeep? ls = none) :
    ∃ span, Rule.spanOf nodes = .ok span ∧ parse source = .ok (.block nodes span) := by
  obtain ⟨parts, hparts, hls, -⟩ := id h
  have hprogram : IsProgram ls _ := ⟨parts, hparts, hls, rfl⟩
  obtain ⟨root, hreduce, hparse, -⟩ := parse_of_match hlex hdeep hprogram.run_eq
  obtain ⟨nodes', span, hnodes', hspan, hroot⟩ := hprogram.statements (proper_of_lex hlex)
  rw [hreduce] at hroot
  cases hroot
  rw [h.unique hnodes']
  exact ⟨span, hspan, hparse⟩

/-- Statements do not end with a word that announces a path. -/
theorem Statements.endsWithoutPath (h : Statements ls nodes) :
    Lexer.EndsWithoutPath false ls := by
  obtain ⟨parts, hparts, rfl, -⟩ := h
  rcases List.eq_nil_or_concat parts with rfl | ⟨front, last, hconcat⟩
  · rfl
  · obtain rfl : parts = front ++ [last] := hconcat.trans List.concat_eq_append
    have hlast := hparts last (by simp)
    have hflatten :
        ((front ++ [last]).map (·.1)).flatten = (front.map (·.1)).flatten ++ last.1 := by
      simp
    rw [hflatten, Lexer.EndsWithoutPath, List.getLast?_append_of_ne_nil _ hlast.phrase.ne_nil]
    cases hl : last.1.getLast? with
    | none => rfl
    | some l => exact hlast.last l hl

/-- Behind statements that fit, what fits alone fits. -/
theorem Statements.fits_behind (h : Statements ls nodes) (hls : Nesting.tooDeep? ls = none)
    (hmore : Nesting.tooDeep? more = none) : Nesting.tooDeep? (ls ++ more) = none := by
  obtain ⟨parts, hparts, rfl, -⟩ := h
  refine Nesting.fits_append.mpr ⟨hls, ?_⟩
  have hafter : ({} : Nesting).after (parts.map (·.1)).flatten = {} :=
    nesting_after_parts fun x hx => (hparts x hx).nesting_after
  rw [hafter]
  exact hmore

/-! ### Statements at other places -/

theorem fits_moved {nesting : Nesting} (h : nesting.Fits ls) :
    nesting.Fits (ls.map (·.moved joint)) := by
  induction ls generalizing nesting with
  | nil => exact h
  | cons l ls ih =>
    obtain ⟨hl, hls⟩ := Nesting.fits_cons.mp h
    exact Nesting.fits_cons.mpr ⟨hl, ih hls⟩

theorem proper_moved {l : Lexeme} (h : l.Proper) : (l.moved joint).Proper where
  one_le_line := Nat.le_add_right_of_le h.one_le_line
  one_le_column := h.one_le_column
  text_none := h.text_none
  spelled := h.spelled

/-- Statements at other places have the same nodes, at those places. -/
theorem Statements.moved (h : Statements ls nodes) (hls : ∀ l ∈ ls, l.Proper) :
    Statements (ls.map (·.moved joint)) (nodes.map (·.moved joint)) := by
  obtain ⟨parts, hparts, hflatten, -⟩ := id h
  have hprogram : IsProgram ls _ := ⟨parts, hparts, hflatten, rfl⟩
  have halike : List.Forall₂ (Lexeme.Alike (Token.MovesTo joint)) ls (ls.map (·.moved joint)) := by
    rw [List.forall₂_map_right_iff, List.forall₂_same]
    intro l hl
    obtain ⟨p, hp, -⟩ := (hls l hl).position
    exact ⟨rfl, rfl, p, hp⟩
  obtain ⟨m', hm', hmatches⟩ := program_tracks.run halike hprogram.run_eq
  have hls' : ∀ l ∈ ls.map (·.moved joint), l.Proper :=
    List.forall_mem_map.mpr fun l hl => proper_moved (hls l hl)
  obtain ⟨nodes', span', hnodes', -, hroot'⟩ := (program_sound hm').statements hls'
  obtain ⟨same, span, hsame, -, hroot⟩ := hprogram.statements hls
  obtain rfl := h.unique hsame
  have hblocks : (Node.block nodes span).Alike (Position.MovesTo joint) (.block nodes' span') := by
    cases (hmatches.reduce (tokensRelate_moved joint)).of_ok hroot hroot' with
    | node hnode => exact hnode
  have hmoved := hblocks.eq_moved
  rw [Node.moved, Node.movedAll_eq] at hmoved
  rw [← (Node.block.inj hmoved).1]
  exact hnodes'

end Grammar

/-! ### Two sources -/

/-- **Two sources that parse also parse with a line feed between them**, to the statements of
the first, which are unchanged, and then those of the second with all their positions behind
the first source: on later lines and at later offsets, in the same columns. The block spans
them from the first to the last, or has no endpoints if there is none. -/
theorem parse_append {s t : String} {a b : Node} (ha : parse s = .ok a) (hb : parse t = .ok b) :
    (jointBehind s).column = 1 ∧ ∃ xs ys xspan yspan span, a = .block xs xspan ∧
      b = .block ys yspan ∧
      parse (s ++ "\n" ++ t) = .ok (.block (xs ++ ys.map (·.moved (jointBehind s))) span) ∧
      span.start = (xs ++ ys.map (·.moved (jointBehind s))).head?.bind (·.span.start) ∧
      span.stop = (xs ++ ys.map (·.moved (jointBehind s))).getLast?.bind (·.span.stop) := by
  obtain ⟨ls, xs, xspan, hls, hdeep, hxs, rfl⟩ := Grammar.statements_of_parse ha
  obtain ⟨more, ys, yspan, hmore, hdeep', hys, rfl⟩ := Grammar.statements_of_parse hb
  have hlex := lex_append hls hmore hxs.endsWithoutPath
  have hmoved : Nesting.tooDeep? (more.map (·.moved (jointBehind s))) = none :=
    Grammar.fits_moved hdeep'
  have hfits := hxs.fits_behind hdeep hmoved
  obtain ⟨span, hspan, hparse⟩ := (hxs.append (hys.moved (proper_of_lex hmore))).parse hlex hfits
  obtain ⟨hstart, hstop⟩ := Rule.endpoints_of_spanOf hspan
  exact ⟨column_jointBehind s, xs, ys, xspan, yspan, span, rfl, rfl, hparse, hstart, hstop⟩

/-- The line feed between two sources may be the second half of a line break. -/
theorem parse_append_sample :
    ∃ a b root, parse "use <lib/a.scad>\r" = .ok a ∧ parse "\ny = -(x + 1);" = .ok b ∧
      parse ("use <lib/a.scad>\r" ++ "\n" ++ "\ny = -(x + 1);") = .ok root ∧
      root.children = a.children ++ b.children.map (·.moved (jointBehind "use <lib/a.scad>\r")) ∧
      root.children.length = 2 := by
  obtain ⟨a, ha, hlength⟩ := exists_of_children_length (by decide +kernel :
    (parse "use <lib/a.scad>\r").toOption.map (·.children.length) = some 1)
  obtain ⟨b, hb, hlength'⟩ := exists_of_children_length (by decide +kernel :
    (parse "\ny = -(x + 1);").toOption.map (·.children.length) = some 1)
  obtain ⟨-, xs, ys, xspan, yspan, span, rfl, rfl, hparse, -⟩ := parse_append ha hb
  refine ⟨_, _, _, ha, hb, hparse, rfl, ?_⟩
  show (xs ++ ys.map (·.moved (jointBehind "use <lib/a.scad>\r"))).length = 2
  rw [List.length_append, List.length_map]
  exact congrArg₂ (· + ·) hlength hlength'

end OpenScad
