/-
# Where the tokens of a text lie

A position is right for a text if it is where one gets from the origin past as
many characters as its offset says. The tokens of a text lie one behind the
other, each with a position and an end that are right for the text, and no
token is empty.

The positions of a run are found step by step, gap by gap and token by token.
No token ends with a carriage return and none begins with a line feed, so that
no step cuts a line break in two, and each position is the one that the text
before it leads to.

Key definitions: `Position.RightFor`, `Lexeme.Lies`, `Lexeme.Before`, `InOrder`.
Key theorems: `Lexer.Run.induction_behind`, `Lexer.Run.inOrder`, `inOrder_of_lex`.
-/
import Mathlib.Data.List.Basic
import OpenScad.Proofs.Lexer.Run
import OpenScad.Proofs.Position.Past

namespace OpenScad

/-! ### Positions and tokens in a text -/

/-- The position is the one past the text's first characters, as many as its offset says. -/
def Position.RightFor (text : List Char) (p : Position) : Prop :=
  p = .past .origin (text.take p.offset)

theorem Position.offset_origin_past (front : List Char) :
    (Position.origin.past front).offset = front.length := by
  rw [Position.offset_past]
  exact Nat.zero_add _

theorem Position.rightFor_past (front rest : List Char) :
    (Position.origin.past front).RightFor (front ++ rest) := by
  rw [Position.RightFor, Position.offset_origin_past, List.take_left]

/-- The token has a position and an end that are right for the text, and is not empty. -/
structure Lexeme.Lies (text : List Char) (l : Lexeme) (start stop : Position) : Prop where
  position : l.token.position = .ok start
  endPosition : l.token.endPosition .exact = .ok stop
  start_right : start.RightFor text
  stop_right : stop.RightFor text
  offset_lt : start.offset < stop.offset

/-- The first token ends where the second starts, or before. -/
def Lexeme.Before (l m : Lexeme) : Prop :=
  ∀ stop start, l.token.endPosition .exact = .ok stop → m.token.position = .ok start →
    stop.offset ≤ start.offset

/-- The tokens lie in the text, one behind the other. -/
structure InOrder (text : List Char) (ls : List Lexeme) : Prop where
  lies : ∀ l ∈ ls, ∃ start stop, l.Lies text start stop
  apart : ls.Pairwise Lexeme.Before

theorem Token.position_starting {p : Position} (h : p.Valid) (value : String) :
    (Token.starting p value).position = .ok p :=
  Position.ofCoordinates_self h

theorem Token.endPosition_starting {p : Position} (h : p.Valid) (value : List Char) :
    (Token.starting p (String.ofList value)).endPosition .exact = .ok (p.past value) := by
  have hraw : (Token.starting p (String.ofList value)).rawText.toList = value :=
    String.toList_ofList
  rw [endPosition, position_starting h, hraw]
  rfl

/-- A token that starts behind a text, and whose value does not go on with its last line
break, lies behind that text. -/
theorem lies_starting {kind : TokenKind} {front value rest : List Char} (hne : value ≠ [])
    (hvalue : (Position.origin.past front).past value = Position.origin.past (front ++ value)) :
    Lexeme.Lies (front ++ value ++ rest)
      { kind, token := .starting (.past .origin front) (String.ofList value) }
      (.past .origin front) (.past .origin (front ++ value)) := by
  have hvalid : (Position.origin.past front).Valid := Position.valid_origin.past front
  have hstop := Token.endPosition_starting hvalid value
  rw [hvalue] at hstop
  have hpos : 0 < value.length := List.length_pos_iff.mpr hne
  refine ⟨Token.position_starting hvalid _, hstop, ?_, Position.rightFor_past _ _, ?_⟩
  · rw [List.append_assoc]
    exact Position.rightFor_past _ _
  · rw [Position.offset_origin_past, Position.offset_origin_past, List.length_append]
    omega

/-! ### The tokens of a run -/

namespace Lexer

/-- A token is not empty, and does not end with a carriage return. -/
theorem getLast?_of_tokenAt {allowed : Bool} {value rest : List Char} {kind : TokenKind}
    (h : tokenAt allowed (value ++ rest) = .ok (kind, value.length)) :
    value ≠ [] ∧ value.getLast? ≠ some '\r' := by
  have hmatches := (matches_of_tokenAt h).2
  rw [List.take_left] at hmatches
  exact ⟨Pattern.ne_nil_of_matches kind.pattern_nullable hmatches,
    Pattern.getLast?_ne_of_avoidsLast kind.pattern_avoidsLast_cr hmatches⟩

theorem head?_ne_lineFeed {value : List Char} (h : ∀ c ∈ value.head?, isBlank c = false) :
    value.head? ≠ some '\n' := by
  intro hv
  have hblank : isBlank '\n' = true := by decide
  rw [h '\n' hv] at hblank
  cases hblank

/-- Behind a text that leads to a position, a gap and a token lead to the positions past them: no
line break is cut in two, neither before the gap nor before the token nor behind it. -/
theorem past_gap_token {allowed : Bool} {start : Position} {front gap value rest : List Char}
    {kind : TokenKind} (hstart : start = Position.origin.past front)
    (hseam : front.getLast? ≠ some '\r') (first : ∀ c ∈ value.head?, isBlank c = false)
    (found : tokenAt allowed (value ++ rest) = .ok (kind, value.length)) :
    start.past gap = Position.origin.past (front ++ gap) ∧
      (Position.origin.past (front ++ gap)).past value =
        Position.origin.past (front ++ gap ++ value) ∧
      (front ++ gap ++ value).getLast? ≠ some '\r' := by
  obtain ⟨hne, hlast⟩ := getLast?_of_tokenAt found
  refine ⟨?_, ?_, ?_⟩
  · rw [hstart]
    exact (Position.past_append _ fun hcr => absurd hcr hseam).symm
  · exact (Position.past_append _ fun _ => head?_ne_lineFeed first).symm
  · rwa [List.getLast?_append_of_ne_nil _ hne]

/-- **Induction on the tokens of a text behind a front** that leads to where the text starts and
does not end with a carriage return: each token stands at the position past everything before it,
and everything up to its end is the front of what comes behind it. -/
@[elab_as_elim]
theorem Run.induction_behind {motive : Bool → List Char → List Char → List Lexeme → Prop}
    (blank : ∀ {allowed : Bool} {front gap : List Char}, (∀ c ∈ gap, isBlank c = true) →
      motive allowed front gap [])
    (token : ∀ {allowed : Bool} {front gap value rest : List Char} {kind : TokenKind}
      {ls : List Lexeme}, (∀ c ∈ gap, isBlank c = true) →
      (∀ c ∈ value.head?, isBlank c = false) →
      tokenAt allowed (value ++ rest) = .ok (kind, value.length) →
      (Position.origin.past (front ++ gap)).past value =
        Position.origin.past (front ++ gap ++ value) →
      Run kind.announcesPath (.past .origin (front ++ gap ++ value)) rest ls →
      motive kind.announcesPath (front ++ gap ++ value) rest ls →
      motive allowed front (gap ++ (value ++ rest))
        ({ kind, token := .starting (.past .origin (front ++ gap)) (String.ofList value) } :: ls))
    {allowed : Bool} {start : Position} {text : List Char} {ls : List Lexeme}
    (h : Run allowed start text ls) (front : List Char)
    (hstart : start = Position.origin.past front)
    (hseam : front.getLast? ≠ some '\r') : motive allowed front text ls := by
  induction h generalizing front with
  | blank hblank => exact blank hblank
  | token hblank first found later ih =>
    obtain ⟨hgap, hvalue, hlast⟩ := past_gap_token hstart hseam first found
    rw [hgap] at ih later ⊢
    exact token hblank first found hvalue (hvalue ▸ later) (ih _ hvalue hlast)

/-- Tokens of what is left of a text lie in the whole text, behind what comes before. -/
theorem Run.inOrder {allowed : Bool} {start : Position} {text : List Char} {ls : List Lexeme}
    (h : Run allowed start text ls) : ∀ front : List Char, start = Position.origin.past front →
    front.getLast? ≠ some '\r' →
    (∀ l ∈ ls, ∃ p q, l.Lies (front ++ text) p q ∧ front.length ≤ p.offset) ∧
      ls.Pairwise Lexeme.Before := by
  intro front hstart hseam
  refine h.induction_behind ?blank ?token front hstart hseam
  case blank => simp
  case token =>
    intro allowed front gap value rest kind ls blank first found hvalue _ ih
    obtain ⟨hlies, hapart⟩ := ih
    have here := @lies_starting kind _ _ rest (getLast?_of_tokenAt found).1 hvalue
    have htext : front ++ gap ++ value ++ rest = front ++ (gap ++ (value ++ rest)) := by simp
    rw [htext] at hlies here
    constructor
    · intro l hl
      rcases List.mem_cons.mp hl with rfl | hl
      · refine ⟨_, _, here, ?_⟩
        rw [Position.offset_origin_past, List.length_append]
        omega
      · obtain ⟨p, q, hl, hp⟩ := hlies l hl
        simp only [List.length_append] at hp
        exact ⟨p, q, hl, by omega⟩
    · refine List.pairwise_cons.mpr ⟨fun m hm stop p hend hp => ?_, hapart⟩
      obtain ⟨p', q', hm, hle⟩ := hlies m hm
      rw [hm.position] at hp
      rw [here.endPosition] at hend
      cases hp
      cases hend
      rwa [Position.offset_origin_past]

end Lexer

/-- The tokens of a source lie in it, one behind the other. -/
theorem inOrder_of_lex {source : String} {ls : List Lexeme} (h : lex source = .ok ls) :
    InOrder source.toList ls := by
  obtain ⟨hlies, hapart⟩ := (run_of_lex h).inOrder [] rfl (by simp)
  refine ⟨fun l hl => ?_, hapart⟩
  obtain ⟨start, stop, hl, -⟩ := hlies l hl
  exact ⟨start, stop, hl⟩

end OpenScad
