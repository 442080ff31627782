/-
# Trees of phrases

`Builds` says which tree a phrase has, from its tokens alone: parentheses leave
no trace, an operation spans its operands, a statement spans from its first
token or part to its last part, and a block spans its braces. The match of a
phrase whose tokens were cut out of a source always reduces, namely to a tree
of the phrase.

Key definitions: `Match.Reduces`, `Builds`, `BuildsProgram`.
Key theorems: `Parses.builds`, `IsProgram.builds`.
-/
import OpenScad.Proofs.Tree.Elements
import OpenScad.Proofs.Tree.Leaf

namespace OpenScad

/-! ### Reducing matches -/

namespace Match

/-- The match reduces, and the elements of its match-result are the given ones. -/
def Reduces (m : Match) (arith : Arithmetic) (elements : List Element) : Prop :=
  ∃ data, m.reduce arith = .ok data ∧ data.flatten = elements

/-- The matches reduce, and the elements of their match-results are the given ones. -/
def ReduceAll (arith : Arithmetic) (ms : List Match) (elements : List Element) : Prop :=
  ∃ items, reduceAll arith ms = .ok items ∧ Data.flattenAll items = elements

variable {arith : Arithmetic} {m : Match} {ms : List Match} {elements more : List Element}

theorem reduces_absent : absent.Reduces arith [] := ⟨.absent, rfl, rfl⟩

theorem reduces_token (t : Token) : (token t).Reduces arith [.token t] := ⟨.token t, rfl, rfl⟩

theorem reduceAll_nil : ReduceAll arith [] [] := ⟨[], rfl, rfl⟩

theorem Reduces.cons (h : m.Reduces arith elements) (hs : ReduceAll arith ms more) :
    ReduceAll arith (m :: ms) (elements ++ more) := by
  obtain ⟨data, hd, rfl⟩ := h
  obtain ⟨items, hi, rfl⟩ := hs
  refine ⟨data :: items, ?_, rfl⟩
  rw [reduceAll, hd, hi]
  rfl

theorem ReduceAll.exists_cons (h : ReduceAll arith (m :: ms) elements) :
    ∃ first later, m.Reduces arith first ∧ ReduceAll arith ms later ∧
      elements = first ++ later := by
  obtain ⟨items, hitems, rfl⟩ := h
  rw [reduceAll] at hitems
  obtain ⟨data, hd, hitems⟩ := exists_of_bind_eq_ok hitems
  obtain ⟨rest, hi, hitems⟩ := exists_of_bind_eq_ok hitems
  cases hitems
  exact ⟨data.flatten, Data.flattenAll rest, ⟨data, hd, rfl⟩, ⟨rest, hi, rfl⟩, rfl⟩

theorem ReduceAll.append {ns : List Match} (h : ReduceAll arith ms elements)
    (hs : ReduceAll arith ns more) : ReduceAll arith (ms ++ ns) (elements ++ more) := by
  induction ms generalizing elements with
  | nil =>
    obtain ⟨items, hitems, rfl⟩ := h
    cases hitems
    exact hs
  | cons m ms ih =>
    obtain ⟨first, later, hfirst, hlater, rfl⟩ := h.exists_cons
    rw [List.append_assoc]
    exact hfirst.cons (ih hlater)

theorem ReduceAll.unique (h : ReduceAll arith ms elements) (h' : ReduceAll arith ms more) :
    elements = more := by
  obtain ⟨items, hitems, rfl⟩ := h
  obtain ⟨items', hitems', rfl⟩ := h'
  rw [hitems] at hitems'
  cases hitems'
  rfl

theorem ReduceAll.group (h : ReduceAll arith ms elements) :
    (Match.group ms).Reduces arith elements := by
  obtain ⟨items, hi, rfl⟩ := h
  refine ⟨.sequence items, ?_, rfl⟩
  rw [reduce, hi]
  rfl

theorem Reduces.grouped (h : m.Reduces arith elements) : m.grouped.Reduces arith elements := by
  have := (h.cons reduceAll_nil).group
  rwa [List.append_nil] at this

/-- A rule whose parts reduce is built from their elements. -/
theorem ReduceAll.reduce_rule {r : Rule} {node : Node} (h : ReduceAll arith ms elements)
    (hb : ∀ data : Data, data.flatten = elements → r.build arith data = .ok (.node node)) :
    (Match.rule r ms).reduce arith = .ok (.node node) := by
  obtain ⟨items, hi, rfl⟩ := h
  rw [reduce, hi]
  exact hb (.sequence items) rfl

theorem ReduceAll.rule {r : Rule} {node : Node} (h : ReduceAll arith ms elements)
    (hb : ∀ data : Data, data.flatten = elements → r.build arith data = .ok (.node node)) :
    (Match.rule r ms).Reduces arith [.node node] :=
  ⟨.node node, h.reduce_rule hb, rfl⟩

/-- A program whose statements reduce to nodes reduces to the block of these. -/
theorem ReduceAll.program {nodes : List Node} {span : Span}
    (h : ReduceAll arith ms (nodes.map .node))
    (hspan : Rule.spanOf nodes = .ok span) :
    (Match.rule .program [.group ms]).reduce arith = .ok (.node (.block nodes span)) := by
  obtain ⟨items, hitems, hflat⟩ := h
  have hdata : (Data.sequence [.sequence items]).flatten = nodes.map .node := by
    rw [Data.flatten, Data.flattenAll, Data.flatten, hflat]
    exact List.append_nil _
  rw [reduce, reduceAll, reduce, hitems]
  exact Rule.buildProgram_eq hdata hspan

end Match

/-! ### The tree of a phrase -/

namespace Grammar

/-- The trees of phrases. -/
inductive Builds : Nonterminal → List Lexeme → Node → Prop where
  | literal {l : Lexeme} {node : Node} (kind : l.kind ∈ literals) (leaf : l.Leaf node) :
      Builds .primary [l] node
  | parentheses {o c : Lexeme} {u : List Lexeme} {node : Node} (opening : o.kind = .openParen)
      (inner : Builds .expression u node) (closing : c.kind = .closeParen) :
      Builds .primary (o :: (u ++ [c])) node
  | operand {u : List Lexeme} {node : Node} (operand : Builds .primary u node) :
      Builds (.level 0) u node
  | unary {o : Lexeme} {u : List Lexeme} {node : Node} {start stop : Position}
      (sign : o.kind ∈ prefixes) (operand : Builds (.level 0) u node)
      (start_place : o.token.position = .ok start) (stop_place : node.placed .stop = .ok stop) :
      Builds (.level 0) (o :: u) (.unaryOperator o.token.value node (.between start stop))
  | tighter {k : Nat} {u : List Lexeme} {node : Node} (operand : Builds (.level k) u node) :
      Builds (.level (k + 1)) u node
  | binary {k : Nat} {u v : List Lexeme} {o : Lexeme} {a b : Node} {start stop : Position}
      (left : Builds (.level (k + 1)) u a) (sign : o.kind ∈ operators k)
      (right : Builds (.level k) v b) (start_place : a.placed .start = .ok start)
      (stop_place : b.placed .stop = .ok stop) :
      Builds (.level (k + 1)) (u ++ o :: v)
        (.binaryOperator o.token.value a b (.between start stop))
  | assignment {name equals semicolon : Lexeme} {u : List Lexeme} {a b : Node}
      {start stop : Position} (name_kind : name.kind = .identifier) (leaf : name.Leaf a)
      (equals_kind : equals.kind = .assign) (value : Builds .expression u b)
      (semicolon_kind : semicolon.kind = .semicolon) (start_place : a.placed .start = .ok start)
      (stop_place : b.placed .stop = .ok stop) :
      Builds .statement (name :: equals :: (u ++ [semicolon]))
        (.assignment a b (.between start stop))
  | usePath {word file : Lexeme} {semicolon : Option Lexeme} {path : Node}
      {start stop : Position} (word_kind : word.kind = .useWord) (file_kind : file.kind = .path)
      (leaf : file.Leaf path) (semicolon_kind : ∀ s ∈ semicolon, s.kind = .semicolon)
      (start_place : word.token.position = .ok start) (stop_place : path.placed .stop = .ok stop) :
      Builds .statement (word :: file :: semicolon.toList) (.usePath path (.between start stop))
  | includePath {word file : Lexeme} {semicolon : Option Lexeme} {path : Node}
      {start stop : Position} (word_kind : word.kind = .includeWord)
      (file_kind : file.kind = .path) (leaf : file.Leaf path)
      (semicolon_kind : ∀ s ∈ semicolon, s.kind = .semicolon)
      (start_place : word.token.position = .ok start) (stop_place : path.placed .stop = .ok stop) :
      Builds .statement (word :: file :: semicolon.toList)
        (.includePath path (.between start stop))
  | block {o c : Lexeme} {parts : List (List Lexeme × Node)} {start stop : Position}
      (opening : o.kind = .openBrace) (statements : ∀ x ∈ parts, Builds .statement x.1 x.2)
      (closing : c.kind = .closeBrace) (start_place : o.token.position = .ok start)
      (stop_place : c.token.endPosition .exact = .ok stop) :
      Builds .statement (o :: ((parts.map (·.1)).flatten ++ [c]))
        (.block (parts.map (·.2)) (.between start stop))
  | comment {l : Lexeme} {node : Node} (kind : l.kind ∈ [.lineComment, .blockComment])
      (leaf : l.Leaf node) : Builds .statement [l] node

/-- The tree of a program: a block of its statements, from the first to the last. -/
def BuildsProgram (ls : List Lexeme) (root : Node) : Prop :=
  ∃ (parts : List (List Lexeme × Node)) (span : Span),
    (∀ x ∈ parts, Builds .statement x.1 x.2) ∧ ls = (parts.map (·.1)).flatten ∧
    Rule.spanOf (parts.map (·.2)) = .ok span ∧ root = .block (parts.map (·.2)) span

/-- Both endpoints of every phrase's tree are placed. -/
theorem Builds.placed {n : Nonterminal} {u : List Lexeme} {node : Node} (h : Builds n u node) :
    ∃ start stop, node.span = .between start stop := by
  have of_leaf {l : Lexeme} {node : Node} (leaf : l.Leaf node) :
      ∃ start stop, node.span = .between start stop := by
    obtain ⟨start, stop, -, -, hs⟩ := leaf.place
    exact ⟨start, stop, hs⟩
  induction h with
  | literal _ leaf => exact of_leaf leaf
  | comment _ leaf => exact of_leaf leaf
  | parentheses _ _ _ ih => exact ih
  | operand _ ih => exact ih
  | tighter _ ih => exact ih
  | unary => exact ⟨_, _, rfl⟩
  | binary => exact ⟨_, _, rfl⟩
  | assignment => exact ⟨_, _, rfl⟩
  | usePath => exact ⟨_, _, rfl⟩
  | includePath => exact ⟨_, _, rfl⟩
  | block => exact ⟨_, _, rfl⟩

theorem placed_of_span {node : Node} {start stop : Position} (h : node.span = .between start stop)
    (endpoint : Endpoint) : ∃ p, node.placed endpoint = .ok p := by
  rw [Node.placed, h]
  cases endpoint with
  | start => exact ⟨start, rfl⟩
  | stop => exact ⟨stop, rfl⟩

theorem Builds.placed_endpoint {n : Nonterminal} {u : List Lexeme} {node : Node}
    (h : Builds n u node) (endpoint : Endpoint) : ∃ p, node.placed endpoint = .ok p := by
  obtain ⟨start, stop, hs⟩ := h.placed
  exact placed_of_span hs endpoint

/-- From statements there is always a span: none, or from the first to the last. -/
theorem exists_spanOf {parts : List (List Lexeme × Node)}
    (h : ∀ x ∈ parts, Builds .statement x.1 x.2) :
    ∃ span, Rule.spanOf (parts.map (·.2)) = .ok span := by
  unfold Rule.spanOf
  split
  · rename_i first last hfirst hlast
    obtain ⟨x, hx, rfl⟩ := List.mem_map.mp (List.mem_of_mem_head? hfirst)
    obtain ⟨y, hy, rfl⟩ := List.mem_map.mp (List.mem_of_mem_getLast? hlast)
    obtain ⟨start, hstart⟩ := (h x hx).placed_endpoint .start
    obtain ⟨stop, hstop⟩ := (h y hy).placed_endpoint .stop
    exact ⟨.between start stop, by rw [hstart, hstop]; rfl⟩
  · exact ⟨{}, rfl⟩

/-! ### Every match has a tree -/

/-- The match of a terminal rule reduces to the node of its token. -/
theorem exists_leaf {l : Lexeme} {r : Rule} (h : l.Proper) (hr : (l.kind, r) ∈ terminalRules) :
    ∃ node, (Match.rule r [.token l.token]).Reduces .exact [.node node] ∧ l.Leaf node := by
  obtain ⟨node, hn, hl⟩ := h.exists_leaf hr
  exact ⟨node, ⟨.node node, hn, rfl⟩, hl⟩

/-- The statement around a match passes its node on. -/
theorem reduces_statement {m : Match} {node : Node} (h : m.Reduces .exact [.node node]) :
    (Match.rule .statement [m.grouped]).Reduces .exact [.node node] :=
  (h.grouped.cons Match.reduceAll_nil).rule fun _ hd => Rule.buildStatement_eq hd

/-- Trees of all parts, if every part has one, and the nodes to which their matches reduce. -/
theorem exists_built : ∀ {parts : List (List Lexeme × Match)},
    (∀ x ∈ parts, ∃ node, x.2.Reduces .exact [.node node] ∧ Builds .statement x.1 node) →
    ∃ built : List (List Lexeme × Node), built.map (·.1) = parts.map (·.1) ∧
      (∀ x ∈ built, Builds .statement x.1 x.2) ∧
      Match.ReduceAll .exact (parts.map (·.2)) ((built.map (·.2)).map .node)
  | [], _ => ⟨[], rfl, by simp, Match.reduceAll_nil⟩
  | x :: parts, h => by
    obtain ⟨node, hn, hb⟩ := h x List.mem_cons_self
    obtain ⟨built, hfst, hbuilt, hnodes⟩ := exists_built fun y hy =>
      h y (List.mem_cons_of_mem x hy)
    refine ⟨(x.1, node) :: built, by simp [hfst], ?_, hn.cons hnodes⟩
    intro y hy
    rcases List.mem_cons.mp hy with rfl | hy
    · exact hb
    · exact hbuilt y hy

theorem reduces_ofOption : ∀ semicolon : Option Lexeme,
    (Match.ofOption (semicolon.map (.token ·.token))).Reduces .exact
      ((semicolon.map (·.token)).toList.map .token)
  | none => Match.reduces_absent
  | some l => Match.reduces_token l.token

theorem Parses.builds {n : Nonterminal} {u : List Lexeme} {m : Match} (h : Parses n u m)
    (hu : ∀ l ∈ u, l.Proper) : ∃ node, m.Reduces .exact [.node node] ∧ Builds n u node := by
  induction h with
  | @literal l r rule =>
    obtain ⟨node, hn, hl⟩ := exists_leaf (hu l List.mem_cons_self)
      (List.mem_cons_of_mem _ (List.mem_append_left _ rule))
    exact ⟨node, hn.grouped, .literal (kind_mem_of_rule rule) hl⟩
  | @parentheses o c u m opening _ closing ih =>
    obtain ⟨node, hn, hb⟩ := ih fun l hl => hu l (by simp [hl])
    have ho : o.token.value = "(" := (hu o (by simp)).value_of_kind opening rfl
    have hc : c.token.value = ")" := (hu c (by simp)).value_of_kind closing rfl
    refine ⟨node, Match.Reduces.grouped ?_, .parentheses opening hb closing⟩
    exact ((Match.reduces_token _).cons (hn.cons ((Match.reduces_token _).cons
      Match.reduceAll_nil))).rule fun _ hd => Rule.buildParenthesized_eq hd ho hc
  | operand _ ih =>
    obtain ⟨node, hn, hb⟩ := ih hu
    exact ⟨node, (hn.cons Match.reduceAll_nil).rule fun _ hd =>
      Rule.buildOperation_lone hd, .operand hb⟩
  | @unary o u m sign _ ih =>
    obtain ⟨node, hn, hb⟩ := ih fun l hl => hu l (List.mem_cons_of_mem _ hl)
    obtain ⟨start, hstart, -⟩ := (hu o List.mem_cons_self).position
    obtain ⟨stop, hstop⟩ := hb.placed_endpoint .stop
    refine ⟨_, ?_, .unary sign hb hstart hstop⟩
    exact ((Match.reduces_token _).grouped.cons (hn.cons Match.reduceAll_nil)).rule
      fun _ hd => Rule.buildOperation_unary hd hstart hstop
  | tighter _ ih =>
    obtain ⟨node, hn, hb⟩ := ih hu
    exact ⟨node, (hn.cons Match.reduceAll_nil).rule fun _ hd =>
      Rule.buildOperation_lone hd, .tighter hb⟩
  | @binary k u v o a b _ sign _ ihl ihr =>
    obtain ⟨left, hnl, hbl⟩ := ihl fun l hl => hu l (by simp [hl])
    obtain ⟨right, hnr, hbr⟩ := ihr fun l hl => hu l (by simp [hl])
    obtain ⟨start, hstart⟩ := hbl.placed_endpoint .start
    obtain ⟨stop, hstop⟩ := hbr.placed_endpoint .stop
    refine ⟨_, ?_, .binary hbl sign hbr hstart hstop⟩
    exact (hnl.cons ((Match.reduces_token _).grouped.cons (hnr.cons Match.reduceAll_nil))).rule
      fun _ hd => Rule.buildOperation_binary hd hstart hstop
  | @assignment name equals semicolon u m name_kind equals_kind _ semicolon_kind ih =>
    obtain ⟨left, hnl, hleaf⟩ := exists_leaf (r := .identifier) (hu name (by simp))
      (by rw [name_kind]; decide)
    obtain ⟨right, hnr, hb⟩ := ih fun l hl => hu l (by simp [hl])
    obtain ⟨_, _, -, -, hspan⟩ := hleaf.place
    obtain ⟨start, hstart⟩ := placed_of_span hspan .start
    obtain ⟨stop, hstop⟩ := hb.placed_endpoint .stop
    have he : equals.token.value = "=" := (hu equals (by simp)).value_of_kind equals_kind rfl
    have hs : ∀ s ∈ some semicolon.token, s.value = ";" := by
      rintro s ⟨⟩
      exact (hu semicolon (by simp)).value_of_kind semicolon_kind rfl
    refine ⟨_, reduces_statement ?_,
      .assignment name_kind hleaf equals_kind hb semicolon_kind hstart hstop⟩
    exact (hnl.cons ((Match.reduces_token _).cons (hnr.cons ((Match.reduces_token _).cons
      Match.reduceAll_nil)))).rule fun _ hd =>
        Rule.buildAssignment_eq (by simpa using hd) he hs (hleaf.kind_eq name_kind rfl) hstart
          hstop
  | @path word file semicolon r rule file_kind semicolon_kind =>
    obtain ⟨path, hn, hleaf⟩ := exists_leaf (r := .path) (hu file (by simp))
      (by rw [file_kind]; decide)
    obtain ⟨start, hstart, -⟩ := (hu word List.mem_cons_self).position
    obtain ⟨_, _, -, -, hspan⟩ := hleaf.place
    obtain ⟨stop, hstop⟩ := placed_of_span hspan .stop
    have hkind : path.kind = .path := hleaf.kind_eq file_kind rfl
    have hvalue : ∀ s ∈ semicolon.map (·.token), s.value = ";" := by
      intro s hs
      obtain ⟨l, hl, rfl⟩ := Option.map_eq_some_iff.mp hs
      exact (hu l (by simp [hl])).value_of_kind (semicolon_kind l hl) rfl
    have hparts := (Match.reduces_token word.token).cons (hn.cons
      ((reduces_ofOption semicolon).cons Match.reduceAll_nil))
    simp only [pathRules, List.mem_cons, Prod.mk.injEq, List.not_mem_nil, or_false] at rule
    rcases rule with ⟨hw, rfl⟩ | ⟨hw, rfl⟩
    · have hword : word.token.value = "use" := (hu word List.mem_cons_self).value_of_kind hw rfl
      have hmake : path.use = .ok (.usePath path {}) := by
        rw [Node.use, Node.ofKind, if_pos hkind]
        rfl
      exact ⟨_, reduces_statement (hparts.rule fun _ hd =>
        Rule.buildPathStatement_eq (by simpa using hd) hword hvalue hmake hstart hstop),
        .usePath hw file_kind hleaf semicolon_kind hstart hstop⟩
    · have hword : word.token.value = "include" :=
        (hu word List.mem_cons_self).value_of_kind hw rfl
      have hmake : path.inclusion = .ok (.includePath path {}) := by
        rw [Node.inclusion, Node.ofKind, if_pos hkind]
        rfl
      exact ⟨_, reduces_statement (hparts.rule fun _ hd =>
        Rule.buildPathStatement_eq (by simpa using hd) hword hvalue hmake hstart hstop),
        .includePath hw file_kind hleaf semicolon_kind hstart hstop⟩
  | @block o c parts opening _ closing ih =>
    obtain ⟨built, hfst, hbuilt, hnodes⟩ := exists_built fun x hx => ih x hx fun l hl =>
      hu l (by simp only [List.mem_cons, List.mem_append, List.mem_flatten, List.mem_map]
               exact Or.inr (Or.inl ⟨x.1, ⟨x, hx, rfl⟩, hl⟩))
    obtain ⟨start, hstart, -⟩ := (hu o (by simp)).position
    obtain ⟨_, -, hstop⟩ := (hu c (by simp)).position
    have ho : o.token.value = "\x7b" := (hu o (by simp)).value_of_kind opening rfl
    have hc : c.token.value = "\x7d" := (hu c (by simp)).value_of_kind closing rfl
    rw [← hfst]
    refine ⟨_, reduces_statement ?_, .block opening hbuilt closing hstart hstop⟩
    exact ((Match.reduces_token _).cons (hnodes.group.cons ((Match.reduces_token _).cons
      Match.reduceAll_nil))).rule fun _ hd => Rule.buildBlock_eq hd ho hc hstart hstop
  | @comment l r rule =>
    obtain ⟨node, hn, hl⟩ := exists_leaf (hu l List.mem_cons_self)
      (List.mem_cons_of_mem _ (List.mem_append_right _ rule))
    exact ⟨node, reduces_statement hn, .comment (kind_mem_of_rule rule) hl⟩

/-- The match of a program whose tokens were cut out of a source reduces to its tree. -/
theorem IsProgram.builds {ls : List Lexeme} {m : Match} (h : IsProgram ls m)
    (hls : ∀ l ∈ ls, l.Proper) :
    ∃ root, m.reduce .exact = .ok (.node root) ∧ BuildsProgram ls root := by
  obtain ⟨parts, hparts, rfl, rfl⟩ := h
  obtain ⟨built, hfst, hbuilt, hnodes⟩ := exists_built fun x hx =>
    (hparts x hx).builds fun l hl => hls l (List.mem_flatten_of_mem (List.mem_map_of_mem hx) hl)
  obtain ⟨span, hspan⟩ := exists_spanOf hbuilt
  exact ⟨.block (built.map (·.2)) span, hnodes.program hspan, built, span, hbuilt, by rw [hfst],
    hspan, rfl⟩

end Grammar
end OpenScad
