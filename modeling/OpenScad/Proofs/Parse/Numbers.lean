/-
# Numbers of a source

The text of a number token spells a number, and the reader of numbers takes all
of it: no fraction and no power of ten is left behind. So every number of a
parsed program is the value of the whole text of a token, and none is "not a
number". A text from elsewhere gives a number if and only if it begins with one,
and then the longest front counts (`numbers_of_texts`).

The pattern of the token, the pattern that cuts a front off and the parser of
whole numerals are three descriptions of numerals. Each is compared with the one
grammar of `Decimal.Spelled`.

Key theorems: `TokenKind.exists_spelled_of_matches`, `Lexeme.Proper.spells`,
`Node.Occurs.mem_pieces`, `exists_leaf_of_occurs`, `numbers_of_texts`.
-/
import OpenScad.Proofs.Number.Front
import OpenScad.Proofs.Tree.Pieces
import OpenScad.Proofs.Tree.Spans
import OpenScad.Proofs.Lexer.Path

namespace OpenScad

open Json (Digits SpellsPower)

/-! ### Texts of number tokens -/

namespace TokenKind

theorem digits_of_matches {s : List Char} (h : (Pattern.some digit).Matches s) : Digits s :=
  have hs := Pattern.matches_some_one.mp h
  ⟨hs.1, hs.2⟩

theorem spellsPower_of_matches {s : List Char} (h : (Pattern.optional power).Matches s) :
    ∃ e, SpellsPower e s := by
  cases h with
  | left h =>
    obtain ⟨u, v, rfl, hu, hv⟩ := Pattern.matches_sequence.mp h
    obtain ⟨mark, rfl, hmark⟩ := Pattern.matches_one.mp hu
    obtain ⟨w, ds, rfl, hw, hds⟩ := Pattern.matches_sequence.mp hv
    have hmem : mark ∈ ['e', 'E'] := List.contains_iff_mem.mp hmark
    cases hw with
    | left hsign =>
      obtain ⟨c, rfl, hc⟩ := Pattern.matches_one.mp hsign
      have hc' : c = '+' ∨ c = '-' := by simpa using hc
      rcases hc' with rfl | rfl
      · exact ⟨_, .plus hmem (digits_of_matches hds)⟩
      · exact ⟨_, .minus hmem (digits_of_matches hds)⟩
    | right hdone =>
      rw [Pattern.matches_done.mp hdone]
      exact ⟨_, .plain hmem (digits_of_matches hds)⟩
  | right h =>
    rw [Pattern.matches_done.mp h]
    exact ⟨_, .absent⟩

/-- **The text of a number token spells a numeral.** -/
theorem exists_spelled_of_matches {s : List Char} (h : numberPattern.Matches s) :
    ∃ d : Decimal, d.Spelled s := by
  cases h with
  | left h =>
    obtain ⟨ds, v, rfl, hds, hv⟩ := Pattern.matches_sequence.mp h
    obtain ⟨tail, w, rfl, htail, hw⟩ := Pattern.matches_sequence.mp hv
    obtain ⟨e, hpower⟩ := spellsPower_of_matches hw
    cases htail with
    | left htail =>
      obtain ⟨p, fraction, rfl, hp, hfraction⟩ := Pattern.matches_sequence.mp htail
      rw [Pattern.matches_oneOf_singleton.mp hp]
      exact ⟨_, .whole (digits_of_matches hds) (.point (Pattern.matches_many_one.mp hfraction))
        hpower⟩
    | right hdone =>
      have hwhole := Decimal.Spelled.whole (digits_of_matches hds) .absent hpower
      rw [Pattern.matches_done.mp hdone]
      exact ⟨_, hwhole⟩
  | right h =>
    obtain ⟨p, v, rfl, hp, hv⟩ := Pattern.matches_sequence.mp h
    obtain ⟨ds, w, rfl, hds, hw⟩ := Pattern.matches_sequence.mp hv
    obtain ⟨e, hpower⟩ := spellsPower_of_matches hw
    have hpoint := Decimal.Spelled.point (digits_of_matches hds) hpower
    rw [Pattern.matches_oneOf_singleton.mp hp]
    exact ⟨_, hpoint⟩

end TokenKind

namespace Text

theorem isBlank_of_isDigit {c : Char} (h : c.isDigit = true) : isBlank c = false := by
  have hrange : 48 ≤ c.toNat ∧ c.toNat ≤ 57 := by
    simpa [Char.isDigit, UInt32.le_iff_toNat_le] using h
  simp [isBlank]
  omega

/-- A number has no leading white space. -/
theorem trimBlankStart_of_begins {s : List Char} (h : Binary64.BeginsMagnitude s) :
    trimBlankStart s = s := by
  obtain ⟨c, rest, rfl, hc⟩ := h.exists_cons
  have hblank : isBlank c = false := by
    rcases hc with rfl | hdigit | rfl
    · decide
    · exact isBlank_of_isDigit hdigit
    · decide
  exact List.dropWhile_cons_of_neg (Bool.eq_false_iff.mp hblank)

end Text

/-- **The text of a number token spells a number**, which the reader of numbers takes from it. -/
theorem Lexeme.Proper.spells {l : Lexeme} (h : l.Proper) (hkind : l.kind = .number) :
    Text.trimBlankStart l.token.value.toList = l.token.value.toList ∧
      (Binary64.ofFront l.token.value.toList).Spells l.token.value.toList ∧
      Binary64.frontPattern.found l.token.value.toList = some l.token.value.toList := by
  have hmatches := h.spelled
  rw [hkind] at hmatches
  obtain ⟨d, hd⟩ := TokenKind.exists_spelled_of_matches hmatches
  have hbegins : Binary64.BeginsMagnitude l.token.value.toList := .inr hd.begins
  have htrim := Text.trimBlankStart_of_begins hbegins
  have hnumber : Binary64.BeginsNumber (Text.trimBlankStart l.token.value.toList) := by
    rw [htrim]
    exact ⟨none, _, rfl, hbegins⟩
  obtain ⟨front, hfound, hlongest, -⟩ := Binary64.exists_longestFront hnumber
  rw [htrim] at hfound hlongest
  have hself : Binary64.Spells _ l.token.value.toList := ⟨none, _, rfl, .numeral hd⟩
  obtain ⟨hfront, -⟩ := hlongest.unique hself.longestFront
  rw [hfront] at hfound
  have hspells := hlongest.spells
  rw [hfront] at hspells
  exact ⟨htrim, hspells, hfound⟩

/-! ### Numbers of a tree -/

namespace Node

theorem mem_piecesAll {node : Node} {piece : Piece} : ∀ {nodes : List Node}, node ∈ nodes →
    piece ∈ node.pieces → piece ∈ piecesAll nodes
  | first :: rest, h, hpiece => by
    rw [piecesAll, List.mem_append]
    rcases List.mem_cons.mp h with rfl | hmem
    · exact .inl hpiece
    · exact .inr (mem_piecesAll hmem hpiece)

theorem mem_pieces_of_child {child tree : Node} {piece : Piece} (h : child ∈ tree.children)
    (hpiece : piece ∈ child.pieces) : piece ∈ tree.pieces := by
  cases tree with
  | block statements span => exact mem_piecesAll h hpiece
  | assignment name value span =>
    have hchild : child = name ∨ child = value := by simpa using h
    rcases hchild with rfl | rfl <;> simp [pieces, hpiece]
  | binaryOperator operator left right span =>
    have hchild : child = left ∨ child = right := by simpa using h
    rcases hchild with rfl | rfl <;> simp [pieces, hpiece]
  | unaryOperator operator value span =>
    have hchild : child = value := by simpa using h
    simp [pieces, ← hchild, hpiece]
  | usePath file span | includePath file span =>
    have hchild : child = file := by simpa using h
    simp [pieces, ← hchild, hpiece]
  | _ => cases h

/-- The pieces of a node that occurs in a tree are pieces of the tree. -/
theorem Occurs.mem_pieces {node tree : Node} {piece : Piece} (h : node.Occurs tree)
    (hpiece : piece ∈ node.pieces) : piece ∈ tree.pieces := by
  induction h with
  | root => exact hpiece
  | inside child_mem _ ih => exact mem_pieces_of_child child_mem ih

end Node

/-- A node without parts that occurs in a tree stands there for a token. -/
theorem exists_leaf_of_occurs {ls : List Lexeme} {root node : Node}
    (htraces : Traces root.pieces ls) (hnode : node.pieces = [.leaf node])
    (h : node.Occurs root) : ∃ l ∈ ls, l.Leaf node := by
  have hpiece : .leaf node ∈ root.pieces := h.mem_pieces (by simp [hnode])
  obtain ⟨i, hi, hget⟩ := List.getElem_of_mem hpiece
  have hlength := htraces.length_eq
  have hof := (List.forall₂_iff_get.mp htraces).2 i hi (by omega)
  rw [List.get_eq_getElem, hget] at hof
  cases hof with
  | leaf leaf => exact ⟨_, List.mem_of_mem_filter (List.getElem_mem _), leaf⟩

/-- A number of a tree is the value of a number token. -/
theorem exists_lexeme_of_occurs {ls : List Lexeme} {root : Node} {x : Binary64} {span : Span}
    (htraces : Traces root.pieces ls) (h : Node.Occurs (.number x span) root) :
    ∃ l ∈ ls, l.kind = .number ∧ x = .ofFront l.token.value.toList := by
  obtain ⟨l, hl, leaf⟩ := exists_leaf_of_occurs htraces (by simp [Node.pieces]) h
  cases leaf.value with
  | number kind => exact ⟨l, hl, kind, rfl⟩

/-- **Numbers are lexed and read alike.** What the reader takes from the text of a number token
is the whole text. So a number of a parsed program is the value of the whole text of a token,
and never "not a number". Any text is "not a number" if and only if no number begins behind its
leading white space. Otherwise the reader takes the longest front that spells a number, and
the parser of whole numerals reads that front as the number that it spells. -/
theorem numbers_of_texts :
    (∀ source ls, lex source = .ok ls → ∀ l ∈ ls, l.kind = .number →
      Text.trimBlankStart l.token.value.toList = l.token.value.toList ∧
        Binary64.frontPattern.found l.token.value.toList = some l.token.value.toList ∧
        (Field.text l.token.value).toNumber.Spells l.token.value.toList) ∧
    (∀ source root, parse source = .ok root → ∀ x span, Node.Occurs (.number x span) root →
      x ≠ .nan ∧ ∃ ls, lex source = .ok ls ∧
        ∃ l ∈ ls, l.kind = .number ∧ x.Spells l.token.value.toList) ∧
    ∀ t : String,
      ((Field.text t).toNumber = .nan ↔
        ¬ Binary64.BeginsNumber (Text.trimBlankStart t.toList)) ∧
      (Binary64.BeginsNumber (Text.trimBlankStart t.toList) → ∃ front,
        Binary64.frontPattern.found (Text.trimBlankStart t.toList) = some front ∧
        Binary64.LongestFront (Text.trimBlankStart t.toList) front (Field.text t).toNumber ∧
        Binary64.parse? front = some (Field.text t).toNumber) := by
  refine ⟨?lexemes, ?tree, fun t => ⟨Binary64.ofFront_eq_nan_iff t.toList,
    Binary64.exists_longestFront⟩⟩
  case lexemes =>
    intro source ls hlex l hl hkind
    obtain ⟨htrim, hspells, hfound⟩ := (proper_of_lex hlex l hl).spells hkind
    exact ⟨htrim, hfound, hspells⟩
  case tree =>
    intro source root hparse x span hoccurs
    obtain ⟨ls, hlex, hbuilds⟩ := builds_of_parse hparse
    have hproper := proper_of_lex hlex
    obtain ⟨l, hl, hkind, rfl⟩ := exists_lexeme_of_occurs (hbuilds.pieces hproper) hoccurs
    have hspells := ((hproper l hl).spells hkind).2.1
    exact ⟨hspells.ne_nan, ls, hlex, l, hl, hkind, hspells⟩

/-- A mark without digits behind it ends the front, and so does a second point. -/
example : [".5e+x", "1.e2.5", "+.e5", " -1e400"].map (fun t => (Field.text t).toNumber) =
    [.nearest false 5 10, .ofInt 100, .nan, .infinite true] := by decide +kernel

end OpenScad
