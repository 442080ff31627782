/-
# Nesting and phrases

The nesting of a list of tokens is counted token by token, without regard to
the grammar. A phrase closes every bracket that it opens and ends with a token
that is no prefix operator, so behind it the count of brackets is what it was
before, and no run is left (`Parses.nesting_after`). The check goes through a
list of tokens part by part, each part behind the nesting that the parts before
it leave.

Key definitions: `Nesting.after`, `Nesting.Fits`.
Key theorems: `Nesting.fits_append`, `Parses.nesting_after`.
-/
import OpenScad.Parse
import OpenScad.Proofs.Grammar.Derivation

namespace OpenScad
namespace Nesting

variable {nesting : Nesting} {kind : TokenKind} {l : Lexeme} {u v : List Lexeme}

/-! ### One token -/

/-- The kinds that open or close a level. -/
def bracketKinds : List TokenKind := [.openParen, .openBrace, .closeParen, .closeBrace]

theorem next_opening (h : kind ∈ [.openParen, .openBrace]) :
    nesting.next kind = { brackets := nesting.brackets + 1, run := 0 } := by
  simp only [List.mem_cons, List.not_mem_nil, or_false] at h
  rcases h with rfl | rfl <;> rfl

theorem next_closing (h : kind ∈ [.closeParen, .closeBrace]) :
    nesting.next kind = { brackets := nesting.brackets - 1, run := 0 } := by
  simp only [List.mem_cons, List.not_mem_nil, or_false] at h
  rcases h with rfl | rfl <;> rfl

theorem brackets_next (h : kind ∉ bracketKinds) :
    (nesting.next kind).brackets = nesting.brackets := by
  simp only [bracketKinds, List.mem_cons, List.not_mem_nil, or_false, not_or] at h
  obtain ⟨h1, h2, h3, h4⟩ := h
  simp [next, h1, h2, h3, h4]

theorem next_sign (h : kind ∈ Grammar.prefixes) :
    nesting.next kind = { brackets := nesting.brackets, run := nesting.run + 1 } := by
  have hnot : ∀ kind ∈ Grammar.prefixes, kind ∉ bracketKinds := by decide
  have hrun : (nesting.next kind).run = nesting.run + 1 := if_pos h
  rw [← brackets_next (hnot _ h), ← hrun]

/-- A token that is neither a bracket nor a prefix operator only ends a run. -/
theorem next_plain (h : kind ∉ bracketKinds ++ Grammar.prefixes) :
    nesting.next kind = { brackets := nesting.brackets, run := 0 } := by
  obtain ⟨hbracket, hsign⟩ := not_or.mp fun hor => h (List.mem_append.mpr hor)
  have hrun : (nesting.next kind).run = 0 := if_neg hsign
  rw [← brackets_next hbracket, ← hrun]

/-! ### Lists of tokens -/

/-- The nesting behind a list of tokens. -/
def after (nesting : Nesting) (ls : List Lexeme) : Nesting :=
  ls.foldl (fun here l => here.next l.kind) nesting

theorem after_nil (nesting : Nesting) : nesting.after [] = nesting := rfl

theorem after_cons (nesting : Nesting) (l : Lexeme) (u : List Lexeme) :
    nesting.after (l :: u) = (nesting.next l.kind).after u := rfl

theorem after_append (nesting : Nesting) (u v : List Lexeme) :
    nesting.after (u ++ v) = (nesting.after u).after v :=
  List.foldl_append

/-- No token of a list that stands behind the nesting opens a level too many. -/
def Fits (nesting : Nesting) (ls : List Lexeme) : Prop := nesting.tooDeepFrom? ls = none

theorem fits_cons :
    nesting.Fits (l :: u) ↔
      (nesting.next l.kind).levels ≤ limit ∧ (nesting.next l.kind).Fits u := by
  rw [Fits, tooDeepFrom?]
  split
  · rename_i h
    simp [Nat.not_le.mpr h]
  · rename_i h
    simp [Fits, Nat.not_lt.mp h]

theorem fits_append : nesting.Fits (u ++ v) ↔ nesting.Fits u ∧ (nesting.after u).Fits v := by
  induction u generalizing nesting with
  | nil => simp [Fits, tooDeepFrom?, after_nil]
  | cons l u ih => rw [List.cons_append, fits_cons, fits_cons, ih, after_cons, and_assoc]

end Nesting

namespace Grammar

/-- There are six levels of binary operators. -/
theorem lt_of_mem_operators {k : Nat} {kind : TokenKind} (h : kind ∈ operators k) : k < 6 := by
  refine Nat.lt_of_not_le fun hk => ?_
  obtain ⟨j, rfl⟩ := Nat.exists_eq_add_of_le' hk
  cases h

theorem nesting_after_parts {parts : List (List Lexeme × Match)} {b : Nat}
    (h : ∀ x ∈ parts, ∀ nesting : Nesting,
      nesting.after x.1 = { brackets := nesting.brackets, run := 0 }) :
    (Nesting.mk b 0).after (parts.map (·.1)).flatten = { brackets := b, run := 0 } := by
  induction parts with
  | nil => rfl
  | cons x parts ih =>
    rw [List.map_cons, List.flatten_cons, Nesting.after_append, h x List.mem_cons_self]
    exact ih fun y hy => h y (List.mem_cons_of_mem x hy)

/-- **Behind a phrase, as many brackets are open as before it, and no prefix operator waits for
an operand.** -/
theorem Parses.nesting_after {n : Nonterminal} {u : List Lexeme} {m : Match} (h : Parses n u m) :
    ∀ nesting : Nesting, nesting.after u = { brackets := nesting.brackets, run := 0 } := by
  have plain {kinds : List TokenKind} {kind : TokenKind} (nesting : Nesting) (h : kind ∈ kinds)
      (hkinds : ∀ kind ∈ kinds, kind ∉ Nesting.bracketKinds ++ prefixes) :
      nesting.next kind = { brackets := nesting.brackets, run := 0 } :=
    Nesting.next_plain (hkinds kind h)
  induction h with
  | literal rule =>
    exact fun nesting => plain nesting (kind_mem_of_rule rule) (by decide)
  | comment rule =>
    exact fun nesting => plain nesting (kind_mem_of_rule rule) (by decide)
  | parentheses opening _ closing ih =>
    intro nesting
    rw [Nesting.after_cons, opening, Nesting.next_opening (by decide), Nesting.after_append, ih,
      Nesting.after_cons, closing, Nesting.next_closing (by decide)]
    rfl
  | operand _ ih => exact ih
  | tighter _ ih => exact ih
  | unary sign _ ih =>
    intro nesting
    rw [Nesting.after_cons, ih, Nesting.next_sign sign]
  | @binary k _ _ o _ _ _ sign _ ihl ihr =>
    intro nesting
    have hnot : ∀ k < 6, ∀ kind ∈ operators k, kind ∉ Nesting.bracketKinds := by decide
    rw [Nesting.after_append, Nesting.after_cons, ihr, ihl,
      Nesting.brackets_next (hnot k (lt_of_mem_operators sign) _ sign)]
  | assignment name_kind equals_kind _ semicolon_kind ih =>
    intro nesting
    rw [Nesting.after_cons, Nesting.after_cons, Nesting.after_append, ih, Nesting.after_cons,
      name_kind, equals_kind, semicolon_kind, Nesting.next_plain (by decide),
      Nesting.next_plain (by decide), Nesting.next_plain (by decide)]
    rfl
  | @path word file semicolon r rule file_kind semicolon_kind =>
    intro nesting
    rw [Nesting.after_cons, Nesting.after_cons, plain nesting (kind_mem_of_rule rule) (by decide),
      file_kind, Nesting.next_plain (by decide)]
    cases semicolon with
    | none => rfl
    | some s =>
      rw [Option.toList_some, Nesting.after_cons, semicolon_kind s rfl,
        Nesting.next_plain (by decide)]
      rfl
  | @block o c parts opening _ closing ih =>
    intro nesting
    rw [Nesting.after_cons, opening, Nesting.next_opening (by decide), Nesting.after_append,
      nesting_after_parts ih, Nesting.after_cons, closing, Nesting.next_closing (by decide)]
    rfl

end Grammar
end OpenScad
