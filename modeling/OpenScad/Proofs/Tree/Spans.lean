/-
# Spans of a tree

Every node of a tree that parsing gives spans a part of the source: both of its
endpoints are placed, they are the positions that the source's text leads to,
and the start lies before the end. The spans of a node's children lie within
its own and one behind the other. A source without statements is the exception:
its tree is a block without endpoints (`spans_of_parse`).

The endpoints of a node come from tokens and from other nodes: a block spans its
braces, a binary operation its operands. Each way of finding them is a list of
segments, some of which are children of the node, and the node spans from the
first segment to the last. So one law about segments covers all kinds of nodes.

Key definitions: `Node.Occurs`, `Node.WellPlaced`, `Span.Covers`.
Key theorems: `wellPlaced_of_segments`, `Builds.wellPlaced`, `spans_of_parse`.
-/
import OpenScad.Proofs.Lexer.Places
import OpenScad.Proofs.Parse.Stages
import OpenScad.Proofs.Tree.Inversion

namespace OpenScad

/-! ### Spans against each other -/

/-- The first span starts no earlier than the second and ends no later. -/
structure Span.Within (inner outer : Span) : Prop where
  start_le : ∀ p ∈ outer.start, ∀ q ∈ inner.start, p.offset ≤ q.offset
  stop_le : ∀ p ∈ inner.stop, ∀ q ∈ outer.stop, p.offset ≤ q.offset

/-- The first span ends no later than the second starts. -/
def Span.Before (s t : Span) : Prop := ∀ p ∈ s.stop, ∀ q ∈ t.start, p.offset ≤ q.offset

/-- The span starts where one of the tokens starts, ends where one ends, and is not empty. -/
def Span.Covers (u : List Lexeme) (span : Span) : Prop :=
  ∃ start stop, span = .between start stop ∧ (∃ l ∈ u, l.token.position = .ok start) ∧
    (∃ l ∈ u, l.token.endPosition .exact = .ok stop) ∧ start.offset < stop.offset

namespace Node

/-- A node is a tree itself or stands somewhere below its root. -/
inductive Occurs (node : Node) : Node → Prop where
  | root : Occurs node node
  | inside {child tree : Node} (child_mem : child ∈ tree.children) (occurs : Occurs node child) :
      Occurs node tree

/-- The node spans a part of the text, and its children lie within it, in order. -/
structure WellPlaced (text : List Char) (node : Node) : Prop where
  placed : ∃ start stop, node.span = .between start stop ∧ start.RightFor text ∧
    stop.RightFor text ∧ start.offset < stop.offset
  within : ∀ child ∈ node.children, child.span.Within node.span
  apart : node.children.Pairwise fun a b => a.span.Before b.span

/-- All nodes of a tree are well placed. -/
def AllWellPlaced (text : List Char) (tree : Node) : Prop :=
  ∀ node, Occurs node tree → node.WellPlaced text

theorem WellPlaced.all {text : List Char} {tree : Node} (h : tree.WellPlaced text)
    (hc : ∀ child ∈ tree.children, child.AllWellPlaced text) : tree.AllWellPlaced text := by
  intro node hn
  cases hn with
  | root => exact h
  | inside child_mem occurs => exact hc _ child_mem node occurs

end Node

/-! ### Segments -/

section Segments

variable {text : List Char} {ls u v : List Lexeme} {s t : Span}

theorem Span.Covers.before (hs : s.Covers u) (ht : t.Covers v)
    (h : ∀ l ∈ u, ∀ m ∈ v, l.Before m) : s.Before t := by
  obtain ⟨a, b, rfl, -, ⟨l, hl, hb⟩, -⟩ := hs
  obtain ⟨c, d, rfl, ⟨m, hm, hc⟩, -, -⟩ := ht
  intro p hp q hq
  cases hp
  cases hq
  exact h l hl m hm _ _ hb hc

theorem Span.Covers.mono (h : s.Covers u) (hv : ∀ l ∈ u, l ∈ v) : s.Covers v := by
  obtain ⟨a, b, hs, ⟨l, hl, ha⟩, ⟨m, hm, hb⟩, hlt⟩ := h
  exact ⟨a, b, hs, ⟨l, hv l hl, ha⟩, ⟨m, hv m hm, hb⟩, hlt⟩

/-- Segments of tokens in order, each the tokens of a part with its span. -/
structure Segments (ls : List Lexeme) (segments : List (List Lexeme × Span)) : Prop where
  covers : ∀ x ∈ segments, x.2.Covers x.1
  sublist : (segments.map (·.1)).flatten.Sublist ls

variable {segments : List (List Lexeme × Span)} {start stop : Position}

theorem Segments.apart (h : Segments ls segments) (hls : InOrder text ls) :
    segments.Pairwise fun x y => x.2.Before y.2 := by
  have hp := (List.pairwise_flatten.mp (hls.apart.sublist h.sublist)).2
  rw [List.pairwise_map] at hp
  exact hp.imp_of_mem fun hx hy hxy => (h.covers _ hx).before (h.covers _ hy) hxy

/-- Where the first segment starts, no segment has begun before. -/
theorem Segments.start_le (h : Segments ls segments) (hls : InOrder text ls)
    (hfirst : ∃ x ∈ segments.head?, x.2.start = some start) :
    ∀ x ∈ segments, ∀ p ∈ x.2.start, start.offset ≤ p.offset := by
  obtain ⟨first, hhead, hstart⟩ := hfirst
  obtain ⟨more, rfl⟩ := List.head?_eq_some_iff.mp hhead
  intro x hx p hp
  rcases List.mem_cons.mp hx with rfl | hx
  · rw [hstart] at hp
    cases hp
    exact Nat.le_refl _
  · obtain ⟨a, b, hs, -, -, hlt⟩ := h.covers first List.mem_cons_self
    have hbefore := (List.pairwise_cons.mp (h.apart hls)).1 x hx
    rw [hs] at hstart hbefore
    cases hstart
    have := hbefore b rfl p hp
    omega

/-- Where the last segment ends, every segment has ended. -/
theorem Segments.le_stop (h : Segments ls segments) (hls : InOrder text ls)
    (hlast : ∃ x ∈ segments.getLast?, x.2.stop = some stop) :
    ∀ x ∈ segments, ∀ p ∈ x.2.stop, p.offset ≤ stop.offset := by
  obtain ⟨last, hget, hstop⟩ := hlast
  obtain ⟨more, rfl⟩ := List.getLast?_eq_some_iff.mp hget
  intro x hx p hp
  rcases List.mem_append.mp hx with hx | hx
  · obtain ⟨a, b, hs, -, -, hlt⟩ := h.covers last (by simp)
    have hbefore := (List.pairwise_append.mp (h.apart hls)).2.2 x hx last (by simp)
    rw [hs] at hstop hbefore
    cases hstop
    have := hbefore p hp a rfl
    omega
  · rw [List.mem_singleton.mp hx, hstop] at hp
    cases hp
    exact Nat.le_refl _

/-- What goes from the first segment to the last covers the tokens. -/
theorem Segments.covers_between (h : Segments ls segments) (hls : InOrder text ls)
    (hfirst : ∃ x ∈ segments.head?, x.2.start = some start)
    (hlast : ∃ x ∈ segments.getLast?, x.2.stop = some stop) :
    (Span.between start stop).Covers ls := by
  have hstop := h.le_stop hls hlast
  obtain ⟨x, hx, hxs⟩ := hfirst
  obtain ⟨y, hy, hys⟩ := hlast
  have hx := List.mem_of_mem_head? hx
  have hy := List.mem_of_mem_getLast? hy
  have hin {x} (hx : x ∈ segments) : ∀ l ∈ x.1, l ∈ ls := fun l hl =>
    h.sublist.subset (List.mem_flatten_of_mem (List.mem_map_of_mem hx) hl)
  obtain ⟨a, b, hs, hl, -, hlt⟩ := (h.covers x hx).mono (hin hx)
  obtain ⟨c, d, ht, -, hm, -⟩ := (h.covers y hy).mono (hin hy)
  have hle := hstop x hx b (by rw [hs]; rfl)
  rw [hs] at hxs
  rw [ht] at hys
  cases hxs
  cases hys
  exact ⟨_, _, rfl, hl, hm, by omega⟩

/-- The endpoints of a span that covers tokens are right for the text of the tokens. -/
theorem Span.Covers.placed (h : s.Covers ls) (hls : InOrder text ls) :
    ∃ start stop, s = .between start stop ∧ start.RightFor text ∧ stop.RightFor text ∧
      start.offset < stop.offset := by
  obtain ⟨a, b, hs, ⟨l, hl, ha⟩, ⟨m, hm, hb⟩, hlt⟩ := h
  obtain ⟨_, _, hlies⟩ := hls.lies l hl
  obtain ⟨_, _, hmies⟩ := hls.lies m hm
  rw [hlies.position] at ha
  rw [hmies.endPosition] at hb
  cases ha
  cases hb
  exact ⟨_, _, hs, hlies.start_right, hmies.stop_right, hlt⟩

/-- **A node from its first segment to its last is well placed**, if its children are
segments and well placed themselves. -/
theorem wellPlaced_of_segments {node : Node} (h : Segments ls segments) (hls : InOrder text ls)
    (hfirst : ∃ x ∈ segments.head?, x.2.start = some start)
    (hlast : ∃ x ∈ segments.getLast?, x.2.stop = some stop)
    (hspan : node.span = .between start stop)
    (hchildren : (node.children.map (·.span)).Sublist (segments.map (·.2)))
    (hall : ∀ child ∈ node.children, child.AllWellPlaced text) :
    node.span.Covers ls ∧ node.AllWellPlaced text := by
  have hcovers : node.span.Covers ls := hspan ▸ h.covers_between hls hfirst hlast
  have hwithin : ∀ child ∈ node.children, child.span.Within node.span := by
    intro child hchild
    obtain ⟨x, hx, hxs⟩ := List.mem_map.mp (hchildren.subset (List.mem_map_of_mem hchild))
    rw [← hxs, hspan]
    refine ⟨fun p hp q hq => ?_, fun p hp q hq => ?_⟩
    · cases hp
      exact h.start_le hls hfirst x hx q hq
    · cases hq
      exact h.le_stop hls hlast x hx p hp
  have hapart : node.children.Pairwise fun a b => a.span.Before b.span :=
    List.pairwise_map.mp ((List.pairwise_map.mpr (h.apart hls)).sublist hchildren)
  exact ⟨hcovers, Node.WellPlaced.all ⟨hcovers.placed hls, hwithin, hapart⟩ hall⟩

end Segments

/-! ### Segments of a node -/

theorem InOrder.sublist {text : List Char} {ls u : List Lexeme} (h : InOrder text ls)
    (hu : u.Sublist ls) : InOrder text u :=
  ⟨fun l hl => h.lies l (hu.subset hl), h.apart.sublist hu⟩

/-- A token is a segment of its own. -/
theorem InOrder.exists_covers {text : List Char} {ls : List Lexeme} {l : Lexeme}
    (h : InOrder text ls) (hl : l ∈ ls) : ∃ start stop, l.token.position = .ok start ∧
      l.token.endPosition .exact = .ok stop ∧ (Span.between start stop).Covers [l] := by
  obtain ⟨start, stop, hlies⟩ := h.lies l hl
  exact ⟨start, stop, hlies.position, hlies.endPosition, start, stop, rfl,
    ⟨l, by simp, hlies.position⟩, ⟨l, by simp, hlies.endPosition⟩, hlies.offset_lt⟩

theorem children_of_denotes {l : Lexeme} {node : Node} (h : l.Denotes node) :
    node.children = [] := by
  cases h <;> rfl

/-- The node of a single token is well placed. -/
theorem Lexeme.Leaf.wellPlaced {text : List Char} {l : Lexeme} {node : Node} (h : l.Leaf node)
    (hl : InOrder text [l]) : node.span.Covers [l] ∧ node.AllWellPlaced text := by
  obtain ⟨start, stop, hstart, hstop, hspan⟩ := h.place
  obtain ⟨p, q, hp, hq, hcovers⟩ := hl.exists_covers List.mem_cons_self
  rw [hstart] at hp
  rw [hstop] at hq
  cases hp
  cases hq
  have hseg : Segments [l] [([l], .between start stop)] := ⟨by simpa using hcovers, by simp⟩
  have hchildren := children_of_denotes h.value
  exact wellPlaced_of_segments hseg hl ⟨_, rfl, rfl⟩ ⟨_, rfl, rfl⟩ hspan (by simp [hchildren])
    (by simp [hchildren])

section Children

variable {text : List Char} {ls u v : List Lexeme} {node a b : Node} {start stop : Position}

/-- A node from a token to its only child is well placed. -/
theorem wellPlaced_behind {o : Lexeme} (hls : InOrder text ls) (hsub : (o :: u).Sublist ls)
    (ha : a.span.Covers u ∧ a.AllWellPlaced text) (hstart : o.token.position = .ok start)
    (hstop : a.placed .stop = .ok stop) (hspan : node.span = .between start stop)
    (hchildren : node.children = [a]) : node.span.Covers ls ∧ node.AllWellPlaced text := by
  obtain ⟨p, q, hp, -, ho⟩ := hls.exists_covers (hsub.subset List.mem_cons_self)
  rw [hstart] at hp
  cases hp
  have hseg : Segments ls [([o], .between start q), (u, a.span)] :=
    ⟨by simp [ho, ha.1], by simpa using hsub⟩
  exact wellPlaced_of_segments hseg hls ⟨_, rfl, rfl⟩ ⟨_, rfl, Node.endpoint_of_placed hstop⟩
    hspan (by simp [hchildren]) (by simpa [hchildren] using ha.2)

/-- A node from a keyword to a path is well placed, with or without a semicolon behind. -/
theorem wellPlaced_path {word file : Lexeme} {semicolon : Option Lexeme}
    (hls : InOrder text (word :: file :: semicolon.toList)) (leaf : file.Leaf a)
    (hstart : word.token.position = .ok start) (hstop : a.placed .stop = .ok stop)
    (hspan : node.span = .between start stop) (hchildren : node.children = [a]) :
    node.span.Covers (word :: file :: semicolon.toList) ∧ node.AllWellPlaced text := by
  have hsub : [word, file].Sublist (word :: file :: semicolon.toList) := by simp
  have hpath := leaf.wellPlaced (hls.sublist ((List.sublist_cons_self word [file]).trans hsub))
  exact wellPlaced_behind hls hsub hpath hstart hstop hspan hchildren

/-- A node from the first of two children to the second is well placed. -/
theorem wellPlaced_between (hls : InOrder text ls) (hsub : (u ++ v).Sublist ls)
    (ha : a.span.Covers u ∧ a.AllWellPlaced text) (hb : b.span.Covers v ∧ b.AllWellPlaced text)
    (hstart : a.placed .start = .ok start) (hstop : b.placed .stop = .ok stop)
    (hspan : node.span = .between start stop) (hchildren : node.children = [a, b]) :
    node.span.Covers ls ∧ node.AllWellPlaced text := by
  have hseg : Segments ls [(u, a.span), (v, b.span)] :=
    ⟨by simp [ha.1, hb.1], by simpa using hsub⟩
  exact wellPlaced_of_segments hseg hls ⟨_, rfl, Node.endpoint_of_placed hstart⟩
    ⟨_, rfl, Node.endpoint_of_placed hstop⟩ hspan (by simp [hchildren])
    (by simpa [hchildren] using ⟨ha.2, hb.2⟩)

end Children

/-! ### The tree of a phrase -/

namespace Grammar

/-- Statements of tokens in order are segments. -/
theorem covers_statements {text : List Char} {ls : List Lexeme}
    {parts : List (List Lexeme × Node)} (hls : InOrder text ls)
    (hsub : (parts.map (·.1)).flatten.Sublist ls)
    (h : ∀ x ∈ parts, InOrder text x.1 → x.2.span.Covers x.1 ∧ x.2.AllWellPlaced text) :
    ∀ x ∈ parts, x.2.span.Covers x.1 ∧ x.2.AllWellPlaced text := fun x hx =>
  h x hx (hls.sublist ((List.sublist_flatten_of_mem (List.mem_map_of_mem hx)).trans hsub))

/-- All nodes of a phrase's tree are well placed, and the tree covers tokens of the phrase. -/
theorem Builds.wellPlaced {text : List Char} {n : Nonterminal} {u : List Lexeme} {node : Node}
    (h : Builds n u node) : InOrder text u → node.span.Covers u ∧ node.AllWellPlaced text := by
  induction h with
  | literal _ leaf => exact leaf.wellPlaced
  | comment _ leaf => exact leaf.wellPlaced
  | @parentheses o c u node _ _ _ ih =>
    intro hls
    have hsub : u.Sublist (o :: (u ++ [c])) :=
      (List.sublist_append_left u [c]).trans (List.sublist_cons_self o _)
    obtain ⟨hcovers, hall⟩ := ih (hls.sublist hsub)
    exact ⟨hcovers.mono hsub.subset, hall⟩
  | operand _ ih => exact ih
  | tighter _ ih => exact ih
  | @unary o u node start stop _ _ hstart hstop ih =>
    intro hls
    have operand := ih (hls.sublist (List.sublist_cons_self o u))
    exact wellPlaced_behind hls (List.Sublist.refl _) operand hstart hstop rfl rfl
  | @binary k u v o a b start stop _ _ _ hstart hstop ihl ihr =>
    intro hls
    have hsub : (u ++ v).Sublist (u ++ o :: v) :=
      List.Sublist.append_left (List.sublist_cons_self o v) u
    have left := ihl (hls.sublist ((List.sublist_append_left u v).trans hsub))
    have right := ihr (hls.sublist ((List.sublist_append_right u v).trans hsub))
    exact wellPlaced_between hls hsub left right hstart hstop rfl rfl
  | @assignment name equals semicolon u a b start stop _ leaf _ _ _ hstart hstop ih =>
    intro hls
    have hsub : ([name] ++ u).Sublist (name :: equals :: (u ++ [semicolon])) :=
      ((List.sublist_append_left u [semicolon]).trans (List.sublist_cons_self equals _)).cons_cons _
    have left := leaf.wellPlaced (hls.sublist ((List.sublist_append_left [name] u).trans hsub))
    have right := ih (hls.sublist ((List.sublist_append_right [name] u).trans hsub))
    exact wellPlaced_between hls hsub left right hstart hstop rfl rfl
  | usePath _ _ leaf _ hstart hstop =>
    exact fun hls => wellPlaced_path hls leaf hstart hstop rfl rfl
  | includePath _ _ leaf _ hstart hstop =>
    exact fun hls => wellPlaced_path hls leaf hstart hstop rfl rfl
  | @block o c parts start stop _ _ _ hstart hstop ih =>
    intro hls
    have hsub : (parts.map (·.1)).flatten.Sublist (o :: ((parts.map (·.1)).flatten ++ [c])) :=
      (List.sublist_append_left _ [c]).trans (List.sublist_cons_self o _)
    have hparts := covers_statements hls hsub ih
    obtain ⟨p, q, hp, -, ho⟩ := hls.exists_covers (l := o) (by simp)
    obtain ⟨r, s, -, hs, hc⟩ := hls.exists_covers (l := c) (by simp)
    rw [hstart] at hp
    rw [hstop] at hs
    cases hp
    cases hs
    have hcovers : ∀ x ∈ parts, x.2.span.Covers x.1 := fun x hx => (hparts x hx).1
    have hseg : Segments (o :: ((parts.map (·.1)).flatten ++ [c]))
        ([([o], .between start q)] ++ parts.map (fun x => (x.1, x.2.span)) ++
          [([c], .between r stop)]) :=
      ⟨by simpa only [List.forall_mem_append, List.forall_mem_singleton, List.forall_mem_map]
          using ⟨⟨ho, hcovers⟩, hc⟩,
        by simp [Function.comp_def]⟩
    exact wellPlaced_of_segments hseg hls ⟨_, rfl, rfl⟩ ⟨_, List.getLast?_concat, rfl⟩ rfl
      (by simp [Function.comp_def])
      (List.forall_mem_map.mpr fun x hx => (hparts x hx).2)

/-- A program without statements has an empty block; all nodes of any other are well placed. -/
theorem BuildsProgram.wellPlaced {text : List Char} {ls : List Lexeme} {root : Node}
    (h : BuildsProgram ls root) (hls : InOrder text ls) :
    root = .block [] {} ∨ root.AllWellPlaced text := by
  obtain ⟨parts, span, hbuilds, rfl, hspan, rfl⟩ := h
  have hparts := covers_statements hls (List.Sublist.refl _) fun x hx => (hbuilds x hx).wellPlaced
  cases hlast : parts.getLast? with
  | none =>
    rw [List.getLast?_eq_none_iff.mp hlast] at hspan ⊢
    cases hspan
    exact .inl rfl
  | some last =>
    obtain ⟨first, more, rfl⟩ := List.exists_cons_of_ne_nil (List.ne_nil_of_mem
      (List.mem_of_mem_getLast? hlast))
    have hseg : Segments ((first :: more).map (·.1)).flatten
        ((first :: more).map fun x => (x.1, x.2.span)) :=
      ⟨List.forall_mem_map.mpr fun x hx => (hparts x hx).1, by simp [Function.comp_def]⟩
    obtain ⟨start, hstart⟩ := (hbuilds first List.mem_cons_self).placed_endpoint .start
    obtain ⟨stop, hstop⟩ := (hbuilds last (List.mem_of_mem_getLast? hlast)).placed_endpoint .stop
    have hbetween : (Node.block ((first :: more).map (·.2)) span).span = .between start stop := by
      unfold Rule.spanOf at hspan
      rw [List.getLast?_map, hlast] at hspan
      simp only [List.map_cons, List.head?_cons, Option.map_some] at hspan
      rw [hstart, hstop] at hspan
      cases hspan
      rfl
    refine .inr (wellPlaced_of_segments hseg hls ⟨_, rfl, Node.endpoint_of_placed hstart⟩
      ⟨(last.1, last.2.span), ?_, Node.endpoint_of_placed hstop⟩ hbetween ?_ ?_).2
    · rw [List.getLast?_map, hlast]
      rfl
    · simp [Function.comp_def]
    · exact List.forall_mem_map.mpr fun x hx => (hparts x hx).2

end Grammar

/-- **The spans of a tree fit the source and each other.** A source without statements has a
block without endpoints. In the tree of any other source, every node has two endpoints that
are right for the source, the start before the end; the spans of its children lie within its
own, one behind the other. -/
theorem spans_of_parse {source : String} {root : Node} (h : parse source = .ok root) :
    root = .block [] {} ∨ root.AllWellPlaced source.toList := by
  obtain ⟨ls, hlex, hbuilds⟩ := builds_of_parse h
  exact hbuilds.wellPlaced (inOrder_of_lex hlex)

/-- A nested empty block, a line break of two characters and parentheses are well placed. -/
theorem spans_of_parse_sample :
    ∃ root, parse "x = (1 + 2);\r\n\x7b \x7b\x7d \x7d" = .ok root ∧ root.children.length = 2 ∧
      root.AllWellPlaced "x = (1 + 2);\r\n\x7b \x7b\x7d \x7d".toList := by
  obtain ⟨root, hroot, hlength⟩ := exists_of_children_length (by decide +kernel :
    (parse "x = (1 + 2);\r\n\x7b \x7b\x7d \x7d").toOption.map (·.children.length) = some 2)
  refine ⟨root, hroot, hlength, ?_⟩
  rcases spans_of_parse hroot with hempty | hall
  · rw [hempty] at hlength
    cases hlength
  · exact hall

end OpenScad
