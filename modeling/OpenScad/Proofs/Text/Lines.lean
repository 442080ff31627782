/-
# Line breaks of a text

A text is a row of lines with a line break behind each line but the last. It can
be laid out so in one way only, if a carriage return and the line feed right
behind it count as one break: behind a lone carriage return there is then never
an empty line that a lone line feed ends (`Lineation.existsUnique`). Splitting a
text gives the lines of that layout (`Lineation.IsExact.splitLines_eq`).

So lines that are free of breaks come back from the text that joins them with
line feeds (`lines_intercalate`): the joined text is laid out with line feeds
only, and these never stand between the characters of another break.

The breaks are found by a pattern with ordered choices. The pair comes before
the lone carriage return, so that one match covers it (`splitLines_eq_between`).

Key definitions: `Text.IsLine`, `Text.Lineation`, `Text.Lineation.IsExact`,
`Text.Lineation.ofText`, `Pattern.between`.
Key theorems: `Text.Lineation.existsUnique`, `Text.splitLines_eq_between`,
`Text.splitLines_intercalate`, `Text.lines_intercalate`.
-/
import Mathlib.Logic.ExistsUnique
import OpenScad.Pattern
import OpenScad.Proofs.Position.Past

namespace OpenScad
namespace Text

/-! ### Lines with line breaks between them -/

/-- What ends a line. -/
inductive LineBreak where
  /-- A carriage return and a line feed. -/
  | pair
  /-- A carriage return alone. -/
  | carriage
  /-- A line feed alone. -/
  | feed
  deriving DecidableEq, Repr

/-- The characters of a line break. -/
def LineBreak.chars : LineBreak → List Char
  | pair => ['\r', '\n']
  | carriage => ['\r']
  | feed => ['\n']

/-- No line break stands in the line. -/
def IsLine (line : List Char) : Prop := ∀ c ∈ line, ¬(c = '\r' ∨ c = '\n')

instance (line : List Char) : Decidable (IsLine line) :=
  inferInstanceAs (Decidable (∀ c ∈ line, ¬(c = '\r' ∨ c = '\n')))

theorem isLine_nil : IsLine [] := List.forall_mem_nil _

theorem isLine_cons {c : Char} {line : List Char} :
    IsLine (c :: line) ↔ ¬(c = '\r' ∨ c = '\n') ∧ IsLine line := List.forall_mem_cons

/-- Lines with a line break behind each but the last. -/
inductive Lineation where
  | last (line : List Char)
  | next (line : List Char) (mark : LineBreak) (rest : Lineation)
  deriving DecidableEq, Repr

namespace Lineation

variable {line rest : List Char} {mark : LineBreak} {l : Lineation}

/-- The lines and line breaks written one behind the other. -/
def text : Lineation → List Char
  | last line => line
  | next line mark rest => line ++ (mark.chars ++ rest.text)

/-- The lines without the line breaks. -/
def lines : Lineation → List (List Char)
  | last line => [line]
  | next line _ rest => line :: rest.lines

/-- The lines are free of breaks, and no pair of characters that is one break is taken for
two breaks with an empty line between them. -/
inductive IsExact : Lineation → Prop where
  | last {line : List Char} (free : IsLine line) : IsExact (.last line)
  | next {line : List Char} {mark : LineBreak} {rest : Lineation} (free : IsLine line)
      (exact : IsExact rest) (whole : mark = .carriage → ∀ more, rest ≠ .next [] .feed more) :
      IsExact (.next line mark rest)

theorem IsExact.isLine (h : l.IsExact) : ∀ line ∈ l.lines, IsLine line := by
  induction h with
  | last free => simpa [lines] using free
  | next free _ _ ih => exact List.forall_mem_cons.mpr ⟨free, ih⟩

/-! ### The lines that splitting gives -/

/-- The layout with a character in front of its first line. -/
def consChar (c : Char) : Lineation → Lineation
  | last line => last (c :: line)
  | next line mark rest => next (c :: line) mark rest

/-- The layout of a text. -/
def ofText : List Char → Lineation
  | [] => last []
  | '\r' :: '\n' :: rest => next [] .pair (ofText rest)
  | c :: rest =>
    if c = '\r' then next [] .carriage (ofText rest)
    else if c = '\n' then next [] .feed (ofText rest)
    else (ofText rest).consChar c

theorem text_consChar (c : Char) (l : Lineation) : (l.consChar c).text = c :: l.text := by
  cases l <;> rfl

theorem lines_consChar (c : Char) (l : Lineation) :
    (l.consChar c).lines = consLine c l.lines := by
  cases l <;> rfl

theorem IsExact.consChar {c : Char} (h : l.IsExact) (hc : ¬(c = '\r' ∨ c = '\n')) :
    (l.consChar c).IsExact := by
  cases h with
  | last free => exact .last (isLine_cons.mpr ⟨hc, free⟩)
  | next free exact whole => exact .next (isLine_cons.mpr ⟨hc, free⟩) exact whole

theorem text_ofText (text : List Char) : (ofText text).text = text := by
  fun_induction ofText text with
  | case1 => rfl
  | case2 rest ih => simp [Lineation.text, LineBreak.chars, ih]
  | case3 rest _ ih => simp [Lineation.text, LineBreak.chars, ih]
  | case4 rest _ _ ih => simp [Lineation.text, LineBreak.chars, ih]
  | case5 c rest _ _ _ ih => rw [text_consChar, ih]

theorem lines_ofText (text : List Char) : (ofText text).lines = splitLines text := by
  fun_induction ofText text with
  | case1 => rfl
  | case2 rest ih => rw [lines, ih, splitLines]
  | case3 rest hpair ih =>
    rw [lines, ih, splitLines_break (.inl rfl) (head?_ne_of_not_pair hpair)]
  | case4 rest hpair hc ih =>
    rw [lines, ih, splitLines_break (.inr rfl) (head?_ne_of_not_pair hpair)]
  | case5 c rest _ hreturn hfeed ih =>
    rw [lines_consChar, ih, splitLines_char (not_or.mpr ⟨hreturn, hfeed⟩)]

theorem isExact_ofText (text : List Char) : (ofText text).IsExact := by
  fun_induction ofText text with
  | case1 => exact .last isLine_nil
  | case2 rest ih => exact .next isLine_nil ih (by simp)
  | case3 rest hpair ih =>
    -- a lone line feed up front would make a pair of the carriage return
    refine .next isLine_nil ih fun _ more hmore => hpair more.text rfl ?_
    rw [← text_ofText rest, hmore]
    rfl
  | case4 rest _ _ ih => exact .next isLine_nil ih (by simp)
  | case5 c rest _ hreturn hfeed ih => exact ih.consChar (not_or.mpr ⟨hreturn, hfeed⟩)

/-! ### There is no other layout -/

theorem ofText_char {c : Char} (hc : ¬(c = '\r' ∨ c = '\n')) :
    ofText (c :: rest) = (ofText rest).consChar c := by
  obtain ⟨hreturn, hfeed⟩ := not_or.mp hc
  rw [ofText, if_neg hreturn, if_neg hfeed]
  exact fun _ h _ => hreturn h

theorem ofText_line (h : IsLine line) : ofText line = .last line := by
  induction line with
  | nil => rfl
  | cons c line ih =>
    obtain ⟨hc, hline⟩ := isLine_cons.mp h
    rw [ofText_char hc, ih hline, consChar]

theorem ofText_line_append (h : IsLine line) (hrest : ofText rest = .next [] mark l) :
    ofText (line ++ rest) = .next line mark l := by
  induction line with
  | nil => exact hrest
  | cons c line ih =>
    obtain ⟨hc, hline⟩ := isLine_cons.mp h
    rw [List.cons_append, ofText_char hc, ih hline, consChar]

theorem ofText_break (mark : LineBreak) (h : mark = .carriage → rest.head? ≠ some '\n') :
    ofText (mark.chars ++ rest) = .next [] mark (ofText rest) := by
  cases mark with
  | pair => exact ofText.eq_2 rest
  | carriage =>
    refine (ofText.eq_3 '\r' rest ?_).trans (if_pos rfl)
    rintro rest' - rfl
    exact h rfl rfl
  | feed => exact (ofText.eq_3 '\n' rest (by simp)).trans (by simp)

/-- A text begins with a line feed only if its layout begins with the break of a line feed. -/
theorem IsExact.head?_text (h : l.IsExact) (hfeed : ∀ more, l ≠ .next [] .feed more) :
    l.text.head? ≠ some '\n' := by
  cases h with
  | @last line free =>
    intro hhead
    exact free '\n' (List.mem_of_mem_head? hhead) (.inr rfl)
  | @next line mark rest free _ _ =>
    cases line with
    | cons c line =>
      intro hhead
      exact (isLine_cons.mp free).1 (.inr (Option.some.inj hhead))
    | nil =>
      cases mark with
      | pair => simp [text, LineBreak.chars]
      | carriage => simp [text, LineBreak.chars]
      | feed => exact absurd rfl (hfeed rest)

theorem IsExact.ofText_text (h : l.IsExact) : ofText l.text = l := by
  induction h with
  | last free => exact ofText_line free
  | @next line mark rest free exact whole ih =>
    refine ofText_line_append free ?_
    rw [ofText_break mark fun hmark => exact.head?_text (whole hmark), ih]

/-- Splitting gives the lines of the layout. -/
theorem IsExact.splitLines_eq (h : l.IsExact) : splitLines l.text = l.lines := by
  rw [← lines_ofText, h.ofText_text]

/-- **A text is laid out in lines in one way.** -/
theorem existsUnique (text : List Char) : ∃! l : Lineation, l.IsExact ∧ l.text = text := by
  refine ⟨ofText text, ⟨isExact_ofText text, text_ofText text⟩, ?_⟩
  rintro l ⟨hexact, rfl⟩
  exact hexact.ofText_text.symm

/-! ### Lines joined with line feeds -/

/-- Lines with a line feed behind each but the last. -/
def joined (line : List Char) : List (List Char) → Lineation
  | [] => .last line
  | second :: more => .next line .feed (joined second more)

theorem text_joined (line : List Char) (more : List (List Char)) :
    (joined line more).text = ['\n'].intercalate (line :: more) := by
  induction more generalizing line with
  | nil => exact (List.intercalate_singleton).symm
  | cons second more ih =>
    rw [joined, text, ih, List.intercalate_cons_cons, List.append_assoc]
    rfl

theorem lines_joined (line : List Char) (more : List (List Char)) :
    (joined line more).lines = line :: more := by
  induction more generalizing line with
  | nil => rfl
  | cons second more ih => rw [joined, lines, ih]

theorem isExact_joined {more : List (List Char)} (h : ∀ l ∈ line :: more, IsLine l) :
    (joined line more).IsExact := by
  induction more generalizing line with
  | nil => exact .last (h line List.mem_cons_self)
  | cons second more ih =>
    obtain ⟨hline, hmore⟩ := List.forall_mem_cons.mp h
    exact .next hline (ih hmore) (by simp)

end Lineation

/-- A lone carriage return before a pair, and a line feed before another one. -/
example : Lineation.ofText ['\r', '\r', '\n', 'a', '\n', '\r', '\n'] =
    .next [] .carriage (.next [] .pair (.next ['a'] .feed (.next [] .pair (.last [])))) := by
  decide

theorem isLine_of_mem_splitLines {text line : List Char} (h : line ∈ splitLines text) :
    IsLine line := by
  rw [← Lineation.lines_ofText] at h
  exact (Lineation.isExact_ofText text).isLine line h

/-- **Lines without breaks, joined with line feeds, are the lines of that text.** -/
theorem splitLines_intercalate {ls : List (List Char)} (hne : ls ≠ [])
    (h : ∀ line ∈ ls, IsLine line) : splitLines (['\n'].intercalate ls) = ls := by
  obtain ⟨line, more, rfl⟩ := List.exists_cons_of_ne_nil hne
  rw [← Lineation.text_joined, (Lineation.isExact_joined h).splitLines_eq,
    Lineation.lines_joined]

/-! ### On strings -/

theorem lines_ne_nil (text : String) : lines text ≠ [] :=
  mt List.map_eq_nil_iff.mp (splitLines_ne_nil _)

theorem isLine_of_mem_lines {text line : String} (h : line ∈ lines text) :
    IsLine line.toList := by
  obtain ⟨chars, hchars, rfl⟩ := List.mem_map.mp h
  rw [String.toList_ofList]
  exact isLine_of_mem_splitLines hchars

theorem lines_intercalate {ls : List String} (hne : ls ≠ [])
    (h : ∀ line ∈ ls, IsLine line.toList) : lines ("\n".intercalate ls) = ls := by
  have hsplit : splitLines ("\n".toList.intercalate (ls.map String.toList)) =
      ls.map String.toList :=
    splitLines_intercalate (mt List.map_eq_nil_iff.mp hne) (List.forall_mem_map.mpr h)
  rw [lines, String.toList_intercalate, hsplit, List.map_map]
  exact List.map_id'' (fun line => String.ofList_toList) ls

end Text

/-! ### Breaks as matches of a pattern -/

/-- What stands between the first texts of a pattern in a text, one behind the other. An empty
one cuts nothing. -/
def Pattern.between (p : Pattern) : List Char → List (List Char)
  | [] => [[]]
  | c :: rest =>
    match p.found (c :: rest) with
    | Option.some (_ :: matched) => [] :: between p (rest.drop matched.length)
    | _ => Text.consLine c (between p rest)
termination_by text => text.length
decreasing_by all_goals simp only [List.length_drop, List.length_cons]; omega

namespace Text

/-- A line break, a pair of characters before a single one. -/
def LineBreak.pattern : Pattern :=
  .either (.literal pair.chars) (.either (.literal carriage.chars) (.literal feed.chars))

theorem LineBreak.found_of_first (front rest : List Char)
    (h : LineBreak.pattern.first some (front ++ rest) = some rest) :
    LineBreak.pattern.found (front ++ rest) = some front := by
  rw [Pattern.found, h, Option.map_some, List.length_append, Nat.add_sub_cancel, List.take_left]

theorem LineBreak.found_pair (rest : List Char) :
    LineBreak.pattern.found ('\r' :: '\n' :: rest) = some ['\r', '\n'] :=
  found_of_first ['\r', '\n'] rest (by simp [pattern, chars])

theorem LineBreak.found_single {c : Char} {rest : List Char} (h : c = '\r' ∨ c = '\n')
    (hr : c = '\r' → rest.head? ≠ some '\n') : LineBreak.pattern.found (c :: rest) = some [c] := by
  refine found_of_first [c] rest ?_
  rcases h with rfl | rfl
  · cases rest with
    | nil => simp [pattern, chars]
    | cons d rest =>
      have hd : d ≠ '\n' := fun hd => hr rfl (congrArg some hd)
      simp [pattern, chars, hd]
  · simp [pattern, chars]

theorem LineBreak.found_char {c : Char} {rest : List Char} (h : ¬(c = '\r' ∨ c = '\n')) :
    LineBreak.pattern.found (c :: rest) = none := by
  obtain ⟨hreturn, hfeed⟩ := not_or.mp h
  simp [pattern, chars, Pattern.found, hreturn, hfeed]

/-- **Lines are what stands between the matches** of the pattern of line breaks. -/
theorem splitLines_eq_between (text : List Char) :
    splitLines text = LineBreak.pattern.between text := by
  induction text using splitLines.induct with
  | case1 => rw [Pattern.between, splitLines]
  | case2 rest ih => rw [Pattern.between, LineBreak.found_pair, splitLines, ih]; simp
  | case3 c rest hpair hc ih =>
    have hhead := head?_ne_of_not_pair hpair
    rw [Pattern.between, LineBreak.found_single hc hhead, splitLines_break hc hhead, ih]
    simp
  | case4 c rest _ hc ih => rw [Pattern.between, LineBreak.found_char hc, splitLines_char hc, ih]

end Text
end OpenScad
