/-
# Nodes of single tokens

The node of a proper token has the token's kind and span, and its value gives
the token's text back: marks around the text are cut off exactly once, a block
comment holds the lines between its marks, a number the value that its text
spells from the front.

Key definitions: `Lexeme.HasSpan`, `Lexeme.Denotes`, `Lexeme.Leaf`.
Key theorems: `Lexeme.Proper.exists_leaf`.
-/
import OpenScad.Parse
import OpenScad.Proofs.Grammar.Derivation
import OpenScad.Proofs.Lexer.Run

namespace OpenScad

/-! ### Marks -/

namespace Text

theorem behind?_append (mark rest : List Char) : behind? mark (mark ++ rest) = some rest := by
  have h : mark.isPrefixOf (mark ++ rest) = true :=
    List.isPrefixOf_iff_prefix.mpr (List.prefix_append mark rest)
  rw [behind?, if_pos h, List.drop_left]

theorem before?_append (mark rest : List Char) : before? mark (rest ++ mark) = some rest := by
  have h : mark.isSuffixOf (rest ++ mark) = true :=
    List.isSuffixOf_iff_suffix.mpr (List.suffix_append rest mark)
  rw [before?, if_pos h, List.length_append, Nat.add_sub_cancel, List.take_left]

theorem between_eq {opening closing inner : List Char} {text : String}
    (h : text.toList = opening ++ (inner ++ closing)) :
    between opening closing text = String.ofList inner := by
  rw [between, h, behind?_append, Option.bind_some, before?_append]

theorem behind_eq {mark rest : List Char} {text : String} (h : text.toList = mark ++ rest) :
    behind mark text = String.ofList rest := by
  rw [behind, h, behind?_append]

end Text

/-! ### Places of tokens -/

/-- The span of a token goes from its position to its end. -/
def Lexeme.HasSpan (l : Lexeme) (span : Span) : Prop :=
  ∃ start stop, l.token.position = .ok start ∧ l.token.endPosition .exact = .ok stop ∧
    span = .between start stop

theorem Lexeme.Proper.position {l : Lexeme} (h : l.Proper) :
    ∃ start, l.token.position = .ok start ∧
      l.token.endPosition .exact = .ok (start.past l.token.value.toList) := by
  let start : Position :=
    { line := l.token.line, column := l.token.column, offset := l.token.offset }
  have hvalid : start.Valid := ⟨h.one_le_line, h.one_le_column⟩
  have hstart : l.token.position = .ok start := Position.ofCoordinates_self hvalid
  refine ⟨start, hstart, ?_⟩
  rw [Token.endPosition_of_position hstart, Token.rawText, h.text_none]
  rfl

/-! ### Values of tokens -/

/-- A kind with a fixed text leaves a token no other value. -/
theorem Lexeme.Proper.value_of_kind {l : Lexeme} {kind : TokenKind} {text : String}
    (h : l.Proper) (hk : l.kind = kind) (hp : kind.pattern = .literal text.toList) :
    l.token.value = text := by
  have hs := h.spelled
  rw [hk, hp] at hs
  exact String.toList_injective (Pattern.matches_literal.mp hs)

/-- The node of the token's kind whose value gives the token's text back, at any place. -/
inductive Lexeme.Denotes : Lexeme → Node → Prop where
  | number {l : Lexeme} {span : Span} (kind : l.kind = .number) :
      Denotes l (.number (.ofFront l.token.value.toList) span)
  | string {l : Lexeme} {text : String} {span : Span} (kind : l.kind = .string)
      (marks : "\"" ++ text ++ "\"" = l.token.value) : Denotes l (.string text span)
  | path {l : Lexeme} {text : String} {span : Span} (kind : l.kind = .path)
      (marks : "<" ++ text ++ ">" = l.token.value) : Denotes l (.path text span)
  | boolean {l : Lexeme} {span : Span} (kind : l.kind ∈ [.trueWord, .falseWord]) :
      Denotes l (.boolean (l.token.value == "true") span)
  | undefined {l : Lexeme} {span : Span} (kind : l.kind = .undefWord) :
      Denotes l (.undefined span)
  | identifier {l : Lexeme} {span : Span} (kind : l.kind = .identifier) :
      Denotes l (.identifier l.token.value span)
  | lineComment {l : Lexeme} {text : String} {span : Span} (kind : l.kind = .lineComment)
      (marks : "//" ++ text = l.token.value) : Denotes l (.lineComment (.single text) span)
  | blockComment {l : Lexeme} {text : String} {span : Span} (kind : l.kind = .blockComment)
      (marks : "/*" ++ text ++ "*/" = l.token.value) :
      Denotes l (.blockComment (.lines (Text.lines text)) span)

/-- The node of a token, at the place of the token. -/
structure Lexeme.Leaf (l : Lexeme) (node : Node) : Prop where
  value : l.Denotes node
  place : l.HasSpan node.span

/-- The kind of the node that stands for a token of the kind, if one does. -/
def TokenKind.nodeKind? : TokenKind → Option NodeKind
  | .number => some .number
  | .string => some .string
  | .path => some .path
  | .trueWord | .falseWord => some .boolean
  | .undefWord => some .undefined
  | .identifier => some .identifier
  | .lineComment => some .lineComment
  | .blockComment => some .blockComment
  | _ => none

theorem Lexeme.Denotes.nodeKind {l : Lexeme} {node : Node} (h : l.Denotes node) :
    l.kind.nodeKind? = some node.kind := by
  cases h with
  | boolean kind =>
    simp only [List.mem_cons, List.not_mem_nil, or_false] at kind
    rcases kind with hk | hk <;> rw [hk] <;> rfl
  | number kind => rw [kind]; rfl
  | string kind => rw [kind]; rfl
  | path kind => rw [kind]; rfl
  | undefined kind => rw [kind]; rfl
  | identifier kind => rw [kind]; rfl
  | lineComment kind => rw [kind]; rfl
  | blockComment kind => rw [kind]; rfl

theorem Lexeme.Leaf.kind_eq {l : Lexeme} {node : Node} {kind : TokenKind} {k : NodeKind}
    (h : l.Leaf node) (hl : l.kind = kind) (hk : kind.nodeKind? = some k) : node.kind = k := by
  have hn := h.value.nodeKind
  rw [hl, hk] at hn
  exact (Option.some.inj hn).symm

/-- The rules that build a node of a single token, with the kinds of their tokens. -/
def Grammar.terminalRules : List (TokenKind × Rule) :=
  (.path, .path) :: (Grammar.literalRules ++ Grammar.commentRules)

/-- A terminal rule gives the node that its kind makes of the value, at the token. -/
theorem Rule.buildTerminal_eq {arith : Arithmetic} {kind : NodeKind} {value : String → Field}
    {token : Token} {start stop : Position} {node : Node} (hk : kind.isTerminal = true)
    (hn : Node.ofFields kind { entries := [("value", value token.value)] } = .ok node)
    (hs : node.span = {}) (hstart : token.position = .ok start)
    (hstop : token.endPosition arith = .ok stop) :
    Rule.buildTerminal arith kind value (.sequence [.token token]) =
      .ok (.node (node.withSpan (.between start stop))) := by
  have hplace : Node.ofToken arith kind token (value token.value) =
      .ok (node.withSpan (.between start stop)) := by
    rw [Node.ofToken, if_pos hk, hstart, hstop, hn]
    simp [Node.place, Span.place, Span.endpoint, hs,
      Node.span_withSpan, Node.withSpan_withSpan, Span.between]
  simp [Rule.buildTerminal, Rule.singleToken, Data.forward, Data.intoToken, hplace]

/-- A rule that makes a field of the text gives the node of that field, at the token. -/
theorem Lexeme.Proper.exists_leaf_of_build {l : Lexeme} {r : Rule} (h : l.Proper)
    (kind : NodeKind) (value : String → Field) (node : Node)
    (hb : Rule.build .exact r = Rule.buildTerminal .exact kind value) (hk : kind.isTerminal = true)
    (hn : Node.ofFields kind { entries := [("value", value l.token.value)] } = .ok node)
    (hs : node.span = {}) (hd : ∀ span, l.Denotes (node.withSpan span)) :
    ∃ node, (Match.rule r [.token l.token]).reduce .exact = .ok (.node node) ∧ l.Leaf node := by
  obtain ⟨start, hstart, hstop⟩ := h.position
  have hspan := Node.span_withSpan node (.between start (start.past l.token.value.toList))
  refine ⟨_, ?_, hd _, start, _, hstart, hstop, hspan⟩
  rw [Match.reduce, hb]
  exact Rule.buildTerminal_eq hk hn hs hstart hstop

/-- The match of a terminal rule on a proper token is built into the node of that token. -/
theorem Lexeme.Proper.exists_leaf {l : Lexeme} {r : Rule} (h : l.Proper)
    (hr : (l.kind, r) ∈ Grammar.terminalRules) :
    ∃ node, (Match.rule r [.token l.token]).reduce .exact = .ok (.node node) ∧ l.Leaf node := by
  have hspelled := h.spelled
  simp only [Grammar.terminalRules, Grammar.literalRules, Grammar.commentRules, List.cons_append,
    List.nil_append, List.mem_cons, Prod.mk.injEq, List.not_mem_nil, or_false] at hr
  rcases hr with ⟨hk, rfl⟩ | ⟨hk, rfl⟩ | ⟨hk, rfl⟩ | ⟨hk, rfl⟩ | ⟨hk, rfl⟩ | ⟨hk, rfl⟩ | ⟨hk, rfl⟩ |
    ⟨hk, rfl⟩ | ⟨hk, rfl⟩
  all_goals rw [hk] at hspelled
  · obtain ⟨inner, hi⟩ := TokenKind.matches_path hspelled
    refine h.exists_leaf_of_build .path (fun v => .text (Text.between ['<'] ['>'] v))
      (.path (String.ofList inner) {}) rfl rfl ?_ rfl fun span => .path hk ?_
    · rw [Text.between_eq hi]
      rfl
    · apply String.toList_injective
      simp [hi]
  · exact h.exists_leaf_of_build .number .text _ rfl rfl rfl rfl fun span => .number hk
  · obtain ⟨inner, hi⟩ := TokenKind.matches_string hspelled
    refine h.exists_leaf_of_build .string (fun v => .text (Text.between ['"'] ['"'] v))
      (.string (String.ofList inner) {}) rfl rfl ?_ rfl fun span => .string hk ?_
    · rw [Text.between_eq hi]
      rfl
    · apply String.toList_injective
      simp [hi]
  · have hv : l.token.value = "true" := h.value_of_kind hk rfl
    refine h.exists_leaf_of_build .boolean .text (.boolean (l.token.value == "true") {}) rfl rfl
      ?_ rfl fun span => .boolean (by rw [hk]; decide)
    rw [hv]
    rfl
  · have hv : l.token.value = "false" := h.value_of_kind hk rfl
    refine h.exists_leaf_of_build .boolean .text (.boolean (l.token.value == "true") {}) rfl rfl
      ?_ rfl fun span => .boolean (by rw [hk]; decide)
    rw [hv]
    rfl
  · exact h.exists_leaf_of_build .undefined (fun _ => .null) _ rfl rfl rfl rfl fun span =>
      .undefined hk
  · exact h.exists_leaf_of_build .identifier .text _ rfl rfl rfl rfl fun span => .identifier hk
  · obtain ⟨rest, hrest⟩ := TokenKind.matches_lineComment hspelled
    refine h.exists_leaf_of_build .lineComment (fun v => .text (Text.behind ['/', '/'] v))
      (.lineComment (.single (String.ofList rest)) {}) rfl rfl ?_ rfl fun span =>
      .lineComment hk ?_
    · rw [Text.behind_eq hrest]
      rfl
    · apply String.toList_injective
      simp [hrest]
  · obtain ⟨inner, hi⟩ := TokenKind.matches_blockComment hspelled
    refine h.exists_leaf_of_build .blockComment
      (fun v => .text (Text.between ['/', '*'] ['*', '/'] v))
      (.blockComment (.lines (Text.lines (String.ofList inner))) {}) rfl rfl ?_ rfl fun span =>
      .blockComment hk ?_
    · rw [Text.between_eq hi]
      rfl
    · apply String.toList_injective
      simp [hi]

end OpenScad
