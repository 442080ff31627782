/-
# Cutting a text behind another one

Where a source is put behind another one with a line feed between them, the
tokens are those of the first source and then those of the second, at their
places behind the joint (`lex_append`). No token of the first source looks past
the line feed, and the second source is cut as it was, since a run of the
scanner only depends on its start through the positions of its tokens.

The tokens of the first source must not end with a word that announces a path:
behind such a word, the second source would be cut in another way.

Key theorems: `Lexer.scan_of_run`, `Lexer.Run.moved`, `Lexer.Run.append`,
`lex_append`.
-/
import OpenScad.Proofs.Lexer.Local
import OpenScad.Proofs.Lexer.Places
import OpenScad.Proofs.Position.Moved

namespace OpenScad
namespace Lexer

variable {allowed : Bool} {start : Position} {text : List Char} {ls : List Lexeme}

/-! ### Runs are what the scanner does -/

/-- The scanner gives the tokens of a run. -/
theorem scan_of_run (h : Run allowed start text ls) : scan allowed start text = .ok ls := by
  induction h with
  | blank blank => exact scan_blank blank
  | @token allowed start gap value rest kind ls blank first found _ ih =>
    have hvalue : value ≠ [] := (getLast?_of_tokenAt found).1
    have hhead : (value ++ rest).head? = value.head? := List.head?_append_of_ne_nil _ hvalue
    rw [scan_gap blank (by rwa [hhead]) (List.append_ne_nil_of_left_ne_nil hvalue rest), found]
    dsimp only
    rw [List.take_left, List.drop_left, ih]
    rfl

/-! ### Runs at another start -/

/-- A run behind another text gives the same tokens at their places there. -/
theorem Run.moved (joint : Position) (h : Run allowed start text ls) :
    Run allowed (start.moved joint) text (ls.map (·.moved joint)) := by
  induction h with
  | blank blank => exact .blank blank
  | @token allowed start gap value rest kind ls blank first found _ ih =>
    have hgap : (start.moved joint).past gap = (start.past gap).moved joint :=
      Position.past_moved start joint gap
    rw [← Position.past_moved, ← hgap] at ih
    have := Run.token blank first found ih
    rw [hgap] at this
    exact this

/-! ### A run behind another -/

/-- Blanks before a text belong to its first gap. -/
theorem Run.behind_blank {gap : List Char} (hblank : ∀ c ∈ gap, isBlank c = true)
    (hseam : gap.getLast? ≠ some '\r') (h : Run allowed (start.past gap) text ls) :
    Run allowed start (gap ++ text) ls := by
  generalize hstart : start.past gap = here at h
  have longer {more : List Char} (hmore : ∀ c ∈ more, isBlank c = true) :
      ∀ c ∈ gap ++ more, isBlank c = true := fun c hc =>
    (List.mem_append.mp hc).elim (hblank c) (hmore c)
  cases h with
  | blank blank => exact .blank (longer blank)
  | @token _ _ more value rest kind ls blank first found later =>
    have hpast : here.past more = start.past (gap ++ more) := by
      rw [← hstart]
      exact (Position.past_append start fun h => absurd h hseam).symm
    rw [hpast] at later ⊢
    rw [← List.append_assoc]
    exact .token (longer blank) first found later

/-- The kind of the last token announces no path, and where there is no token, none is allowed. -/
def EndsWithoutPath (allowed : Bool) (ls : List Lexeme) : Prop :=
  (ls.getLast?.map (·.kind.announcesPath)).getD allowed = false

theorem endsWithoutPath_cons {l : Lexeme} (h : EndsWithoutPath allowed (l :: ls)) :
    EndsWithoutPath l.kind.announcesPath ls := by
  unfold EndsWithoutPath at h ⊢
  rw [List.getLast?_cons] at h
  cases hlast : ls.getLast? with
  | none => simpa [hlast] using h
  | some m => simpa [hlast] using h

/-- **A run goes on behind a line feed with the run of another text**, if its last token
announces no path. -/
theorem Run.append (front : List Char) {t : List Char} {more : List Lexeme}
    (h : Run allowed start text ls) (hstart : start = Position.origin.past front)
    (hseam : front.getLast? ≠ some '\r') (hend : EndsWithoutPath allowed ls)
    (hmore : Run false (Position.origin.past (front ++ text ++ ['\n'])) t more) :
    Run allowed start (text ++ '\n' :: t) (ls ++ more) := by
  induction h generalizing front with
  | @blank allowed start gap blank =>
    have hallowed : allowed = false := hend
    have hgap : start.past (gap ++ ['\n']) = Position.origin.past (front ++ gap ++ ['\n']) := by
      rw [hstart, List.append_assoc]
      exact (Position.past_append _ fun h => absurd h hseam).symm
    have hblank : ∀ c ∈ gap ++ ['\n'], isBlank c = true := by
      intro c hc
      rcases List.mem_append.mp hc with hc | hc
      · exact blank c hc
      · rw [List.mem_singleton.mp hc]
        decide
    rw [hallowed, List.append_cons]
    exact Run.behind_blank hblank (by simp) (hgap ▸ hmore)
  | @token allowed start gap value rest kind ls blank first found later ih =>
    -- the positions behind the gap and behind the token are those that the text leads to
    obtain ⟨hgap, hvalue, hseam'⟩ := past_gap_token hstart hseam first found
    rw [← hgap] at hvalue
    have hsame : front ++ (gap ++ (value ++ rest)) ++ ['\n'] =
        front ++ gap ++ value ++ rest ++ ['\n'] := by simp
    rw [hsame] at hmore
    have hlater := ih _ hvalue hseam' (endsWithoutPath_cons hend) hmore
    have hfound := tokenAt_append found t
    rw [List.append_assoc] at hfound
    have htext : gap ++ (value ++ rest) ++ '\n' :: t = gap ++ (value ++ (rest ++ '\n' :: t)) := by
      simp
    rw [htext]
    exact .token blank first hfound hlater

end Lexer

/-- The place where a source begins that is put behind another one with a line feed between. -/
def jointBehind (source : String) : Position := Position.origin.past (source ++ "\n").toList

theorem column_jointBehind (source : String) : (jointBehind source).column = 1 := by
  rw [jointBehind, String.toList_append]
  exact Position.column_past_lineFeed _ _

theorem valid_jointBehind (source : String) : (jointBehind source).Valid :=
  Position.valid_origin.past _

/-- **The tokens of two sources with a line feed between them are those of each, the second ones
at their places behind the first source.** -/
theorem lex_append {s t : String} {ls more : List Lexeme} (hs : lex s = .ok ls)
    (ht : lex t = .ok more) (hend : Lexer.EndsWithoutPath false ls) :
    lex (s ++ "\n" ++ t) = .ok (ls ++ more.map (·.moved (jointBehind s))) := by
  have hmore := (run_of_lex ht).moved (jointBehind s)
  rw [Position.moved_origin (valid_jointBehind s) (column_jointBehind s), jointBehind,
    String.toList_append] at hmore
  have hrun := (run_of_lex hs).append [] rfl (by simp) hend hmore
  have htext : (s ++ "\n" ++ t).toList = s.toList ++ '\n' :: t.toList := by
    rw [String.toList_append, String.toList_append, List.append_assoc]
    rfl
  rw [lex, htext, jointBehind, String.toList_append]
  exact Lexer.scan_of_run hrun

end OpenScad
