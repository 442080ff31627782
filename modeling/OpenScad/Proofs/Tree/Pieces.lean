/-
# A tree against its tokens

Walking a tree in order passes its nodes without parts and the words that nodes
with parts keep: operators, and the keyword of a use or an include. These
pieces match the tokens of the source one to one, in order, if parentheses,
braces, semicolons and the equals signs of assignments are left out
(`pieces_of_parse`). A word is the token's value, and a node without parts
stands where the token stands and gives its text back. So parsing loses,
repeats, reorders and alters nothing.

Key definitions: `Piece`, `Node.pieces`, `Lexeme.leavesTrace`, `Piece.Of`.
Key theorems: `Builds.pieces`, `pieces_of_parse`.
-/
import Mathlib.Data.List.Forall2
import OpenScad.Proofs.Parse.Stages

namespace OpenScad

/-! ### Pieces of a tree -/

/-- What a tree holds of a source: a node without parts, or a word that a node keeps. -/
inductive Piece where
  | leaf (node : Node)
  | word (text : String)

namespace Node

mutual

/-- The pieces of a tree, in the order of the source. -/
def pieces : Node → List Piece
  | assignment name value _ => name.pieces ++ value.pieces
  | block statements _ => piecesAll statements
  | binaryOperator operator left right _ => left.pieces ++ .word operator :: right.pieces
  | unaryOperator operator value _ => .word operator :: value.pieces
  | usePath file _ => .word "use" :: file.pieces
  | includePath file _ => .word "include" :: file.pieces
  | node => [.leaf node]

/-- The pieces of trees, one tree behind the other. -/
def piecesAll : List Node → List Piece
  | [] => []
  | node :: nodes => node.pieces ++ piecesAll nodes

end

end Node

/-! ### Tokens that stand in a tree -/

namespace TokenKind

/-- The kinds whose tokens a tree does not hold. -/
def traceless : List TokenKind :=
  [.openParen, .closeParen, .openBrace, .closeBrace, .semicolon, .assign]

/-- Whether a token of the kind stands in a tree as a word: an operator or a keyword. -/
def isWord (kind : TokenKind) : Bool := kind ∉ traceless && kind.nodeKind? = none

theorem not_traceless_of_isWord {kind : TokenKind} (h : kind.isWord = true) :
    kind ∉ traceless := by
  simp only [isWord, Bool.and_eq_true, decide_eq_true_eq] at h
  exact h.1

theorem not_traceless_of_nodeKind {kind : TokenKind} {k : NodeKind}
    (h : kind.nodeKind? = some k) : kind ∉ traceless := by
  cases kind <;> first | decide | cases h

theorem isWord_of_prefixes : ∀ kind ∈ Grammar.prefixes, kind.isWord = true := by decide

theorem isWord_of_operators : ∀ k : Nat, ∀ kind ∈ Grammar.operators k, kind.isWord = true
  | 0 | 1 | 2 | 3 | 4 | 5 => by decide
  | _ + 6 => by simp [Grammar.operators]

end TokenKind

/-- Whether a tree holds the token. -/
def Lexeme.leavesTrace (l : Lexeme) : Bool := l.kind ∉ TokenKind.traceless

/-- The piece that stands for a token: its word, or the node without parts that has its
kind, its place and its text. -/
inductive Piece.Of : Piece → Lexeme → Prop where
  | word {l : Lexeme} (kind : l.kind.isWord = true) : Piece.Of (.word l.token.value) l
  | leaf {l : Lexeme} {node : Node} (leaf : l.Leaf node) : Piece.Of (.leaf node) l

/-! ### One step of the walk -/

section Traces

variable {u v : List Lexeme} {l : Lexeme} {ps qs : List Piece} {node : Node}

/-- The pieces are those of the tokens that leave a trace, in order. -/
def Traces (ps : List Piece) (u : List Lexeme) : Prop :=
  List.Forall₂ Piece.Of ps (u.filter Lexeme.leavesTrace)

theorem traces_nil : Traces [] [] := .nil

theorem Traces.append (h : Traces ps u) (hs : Traces qs v) : Traces (ps ++ qs) (u ++ v) := by
  unfold Traces
  rw [List.filter_append]
  exact List.rel_append h hs

theorem Traces.skip (hl : l.kind ∈ TokenKind.traceless) (h : Traces ps u) :
    Traces ps (l :: u) := by
  unfold Traces
  rw [List.filter_cons_of_neg (by simpa [Lexeme.leavesTrace] using hl)]
  exact h

theorem Traces.word (hl : l.kind.isWord = true) (h : Traces ps u) :
    Traces (.word l.token.value :: ps) (l :: u) := by
  unfold Traces
  rw [List.filter_cons_of_pos
    (by simpa [Lexeme.leavesTrace] using TokenKind.not_traceless_of_isWord hl)]
  exact .cons (.word hl) h

theorem pieces_of_denotes (h : l.Denotes node) : node.pieces = [.leaf node] := by
  cases h <;> simp [Node.pieces]

theorem Lexeme.Leaf.traces (h : l.Leaf node) : Traces node.pieces [l] := by
  have hkept := TokenKind.not_traceless_of_nodeKind h.value.nodeKind
  unfold Traces
  rw [pieces_of_denotes h.value,
    List.filter_cons_of_pos (by simpa [Lexeme.leavesTrace] using hkept)]
  exact .cons (.leaf h) .nil

end Traces

/-! ### The walk over a whole tree -/

namespace Grammar

theorem traces_parts : ∀ {parts : List (List Lexeme × Node)},
    (∀ x ∈ parts, Traces x.2.pieces x.1) →
    Traces (Node.piecesAll (parts.map (·.2))) (parts.map (·.1)).flatten
  | [], _ => traces_nil
  | _ :: _, h =>
    (h _ List.mem_cons_self).append (traces_parts fun x hx => h x (List.mem_cons_of_mem _ hx))

theorem traces_path {word file : Lexeme} {semicolon : Option Lexeme} {path : Node}
    {text : String} (hw : word.kind.isWord = true) (htext : word.token.value = text)
    (leaf : file.Leaf path) (hs : ∀ s ∈ semicolon, s.kind = .semicolon) :
    Traces (.word text :: path.pieces) (word :: file :: semicolon.toList) := by
  have end_of_statement : Traces [] semicolon.toList := by
    cases semicolon with
    | none => exact traces_nil
    | some s => exact traces_nil.skip (by rw [hs s rfl]; decide)
  have := leaf.traces.append end_of_statement
  rw [List.append_nil] at this
  rw [← htext]
  exact this.word hw

/-- The pieces of a phrase's tree match the tokens of the phrase. -/
theorem Builds.pieces {n : Nonterminal} {u : List Lexeme} {node : Node} (h : Builds n u node)
    (hu : ∀ l ∈ u, l.Proper) : Traces node.pieces u := by
  induction h with
  | literal _ leaf => exact leaf.traces
  | comment _ leaf => exact leaf.traces
  | parentheses opening _ closing ih =>
    have inner := ih fun l hl => hu l (by simp [hl])
    have := inner.append (traces_nil.skip (by rw [closing]; decide))
    rw [List.append_nil] at this
    exact this.skip (by rw [opening]; decide)
  | operand _ ih => exact ih hu
  | tighter _ ih => exact ih hu
  | unary sign _ _ _ ih =>
    rw [Node.pieces]
    exact (ih fun l hl => hu l (List.mem_cons_of_mem _ hl)).word
      (TokenKind.isWord_of_prefixes _ sign)
  | @binary k _ _ _ _ _ _ _ _ sign _ _ _ ihl ihr =>
    have left := ihl fun l hl => hu l (by simp [hl])
    have right := ihr fun l hl => hu l (by simp [hl])
    rw [Node.pieces]
    exact left.append (right.word (TokenKind.isWord_of_operators k _ sign))
  | assignment _ leaf equals_kind _ semicolon_kind _ _ ih =>
    have value := ih fun l hl => hu l (by simp [hl])
    have := value.append (traces_nil.skip (by rw [semicolon_kind]; decide))
    rw [List.append_nil] at this
    rw [Node.pieces]
    exact leaf.traces.append (this.skip (by rw [equals_kind]; decide))
  | @usePath word file semicolon _ _ _ word_kind _ leaf semicolon_kind =>
    have hword : word.token.value = "use" := (hu word (by simp)).value_of_kind word_kind rfl
    rw [Node.pieces]
    exact traces_path (by rw [word_kind]; decide) hword leaf semicolon_kind
  | @includePath word file semicolon _ _ _ word_kind _ leaf semicolon_kind =>
    have hword : word.token.value = "include" :=
      (hu word (by simp)).value_of_kind word_kind rfl
    rw [Node.pieces]
    exact traces_path (by rw [word_kind]; decide) hword leaf semicolon_kind
  | @block o c parts _ _ opening _ closing _ _ ih =>
    have inner := traces_parts fun x hx => ih x hx fun l hl =>
      hu l (by simp only [List.mem_cons, List.mem_append, List.mem_flatten, List.mem_map]
               exact Or.inr (Or.inl ⟨x.1, ⟨x, hx, rfl⟩, hl⟩))
    have := inner.append (traces_nil.skip (by rw [closing]; decide))
    rw [List.append_nil, ← Node.pieces] at this
    exact this.skip (by rw [opening]; decide)

/-- The pieces of a program's tree match the tokens of the program. -/
theorem BuildsProgram.pieces {ls : List Lexeme} {root : Node} (h : BuildsProgram ls root)
    (hls : ∀ l ∈ ls, l.Proper) : Traces root.pieces ls := by
  obtain ⟨parts, span, hparts, rfl, -, rfl⟩ := h
  rw [Node.pieces]
  exact traces_parts fun x hx => (hparts x hx).pieces fun l hl =>
    hls l (List.mem_flatten_of_mem (List.mem_map_of_mem hx) hl)

end Grammar

/-- **Parsing loses, repeats, reorders and alters nothing.** The pieces of the tree of a
source match its tokens, but for brackets, semicolons and equals signs of assignments. -/
theorem pieces_of_parse {source : String} {root : Node} (h : parse source = .ok root) :
    ∃ ls, lex source = .ok ls ∧
      List.Forall₂ Piece.Of root.pieces (ls.filter Lexeme.leavesTrace) := by
  obtain ⟨ls, hlex, hbuilds⟩ := builds_of_parse h
  exact ⟨ls, hlex, hbuilds.pieces (proper_of_lex hlex)⟩

/-- A path without a semicolon, an assignment and a comment, piece by piece. -/
theorem pieces_of_parse_sample :
    ∃ root ls, parse "use <a>\nx = -(1 + y) * \"s\"; // end" = .ok root ∧
      lex "use <a>\nx = -(1 + y) * \"s\"; // end" = .ok ls ∧ root.children.length = 3 ∧
      List.Forall₂ Piece.Of root.pieces (ls.filter Lexeme.leavesTrace) := by
  obtain ⟨root, hroot, hlength⟩ := exists_of_children_length (by decide +kernel :
    (parse "use <a>\nx = -(1 + y) * \"s\"; // end").toOption.map (·.children.length) = some 3)
  obtain ⟨ls, hlex, hpieces⟩ := pieces_of_parse hroot
  exact ⟨root, ls, hroot, hlex, hlength, hpieces⟩

end OpenScad
