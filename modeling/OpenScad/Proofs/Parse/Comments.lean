/-
# Lines of block comments

A block comment holds the lines of its text. If they are joined with line feeds
and cut again, they are the same lines, because lines that a text was cut into
are free of breaks (`CommentText.split_joined_iff`). That is so for every
block comment of a parsed program. A comment can also be given as a list of
lines. That list is kept as it is, and only a list of one or more lines without
breaks comes back in this way.

Key definitions: `CommentText.joined`, `CommentText.IsCut`.
Key theorems: `CommentText.split_joined_iff`, `isCut_of_occurs`, `lines_of_texts`.
-/
import OpenScad.Proofs.Parse.Numbers
import OpenScad.Proofs.Text.Lines

namespace OpenScad

open Text (IsLine Lineation)

namespace CommentText

/-- The lines of a comment with line feeds between them. -/
def joined (comment : CommentText) : String := "\n".intercalate comment.toList

/-- The comment holds one or more lines, and none of them has a line break. -/
def IsCut (comment : CommentText) : Prop :=
  ∃ ls, comment = .lines ls ∧ ls ≠ [] ∧ ∀ line ∈ ls, IsLine line.toList

theorem isCut_split (text : String) : (split text).IsCut :=
  ⟨_, rfl, Text.lines_ne_nil text, fun _ => Text.isLine_of_mem_lines⟩

/-- **Cutting undoes joining** exactly for comments that can come from cutting. -/
theorem split_joined_iff {comment : CommentText} :
    split comment.joined = comment ↔ comment.IsCut := by
  constructor
  · intro h
    rw [← h]
    exact isCut_split comment.joined
  · rintro ⟨ls, rfl, hne, hls⟩
    exact congrArg lines (Text.lines_intercalate hne hls)

end CommentText

/-- A block comment of a tree is cut from the text of a comment token. -/
theorem isCut_of_occurs {ls : List Lexeme} {root : Node} {comment : CommentText} {span : Span}
    (htraces : Traces root.pieces ls) (h : Node.Occurs (.blockComment comment span) root) :
    comment.IsCut := by
  obtain ⟨l, -, leaf⟩ := exists_leaf_of_occurs htraces (by simp [Node.pieces]) h
  cases leaf.value with
  | blockComment _ _ => exact CommentText.isCut_split _

/-- **A text is cut exactly at its line breaks.** Its lines are free of breaks, there is at
least one, and they are those of the only exact layout of the text. One or more lines without
breaks come back from the text that joins them with line feeds. So a comment comes back from
its joined lines if and only if it holds one or more lines without breaks, as every comment
does that is cut from a text, and every block comment of a parsed program. -/
theorem lines_of_texts :
    (∀ text : String,
      Text.lines text ≠ [] ∧ (∀ line ∈ Text.lines text, IsLine line.toList) ∧
      (∃! l : Lineation, l.IsExact ∧ l.text = text.toList) ∧
      ∀ l : Lineation, l.IsExact → l.text = text.toList →
        Text.lines text = l.lines.map String.ofList) ∧
    (∀ ls : List String, ls ≠ [] → (∀ line ∈ ls, IsLine line.toList) →
      Text.lines ("\n".intercalate ls) = ls) ∧
    (∀ comment, CommentText.split comment.joined = comment ↔ comment.IsCut) ∧
    (∀ text, (CommentText.split text).IsCut) ∧
    ∀ source root, parse source = .ok root → ∀ comment span,
      Node.Occurs (.blockComment comment span) root →
        CommentText.split comment.joined = comment := by
  refine ⟨fun text => ⟨Text.lines_ne_nil text, fun _ => Text.isLine_of_mem_lines,
    Lineation.existsUnique text.toList, ?layout⟩, fun ls => Text.lines_intercalate,
    fun comment => CommentText.split_joined_iff, CommentText.isCut_split, ?tree⟩
  case layout =>
    intro l hexact htext
    rw [Text.lines, ← htext, hexact.splitLines_eq]
  case tree =>
    intro source root hparse comment span hoccurs
    obtain ⟨ls, hlex, hbuilds⟩ := builds_of_parse hparse
    exact CommentText.split_joined_iff.mpr
      (isCut_of_occurs (hbuilds.pieces (proper_of_lex hlex)) hoccurs)

/-- A comment over three lines, one of them empty, in a program. -/
theorem lines_of_texts_sample :
    Text.lines ("\n".intercalate ["a", "", "b"]) = ["a", "", "b"] ∧
    ∃ root comment span, parse "/*a\r\n\rb*/" = .ok root ∧
      Node.Occurs (.blockComment comment span) root ∧
      CommentText.split comment.joined = comment := by
  obtain ⟨-, hjoined, -, -, htree⟩ := lines_of_texts
  refine ⟨hjoined ["a", "", "b"] (by simp) (by simp [IsLine]), ?_⟩
  have hkinds : (parse "/*a\r\n\rb*/").toOption.map (fun root => root.children.map (·.kind)) =
      some [.blockComment] := by decide +kernel
  cases hroot : parse "/*a\r\n\rb*/" with
  | error e =>
    rw [hroot] at hkinds
    cases hkinds
  | ok root =>
    rw [hroot] at hkinds
    obtain ⟨node, hnode, hkind⟩ := List.map_eq_singleton_iff.mp (Option.some.inj hkinds)
    cases node with
    | blockComment comment span =>
      have hoccurs : Node.Occurs (.blockComment comment span) root :=
        .inside (hnode ▸ List.mem_singleton_self _) .root
      exact ⟨root, comment, span, rfl, hoccurs, htree _ root hroot comment span hoccurs⟩
    | _ => cases hkind

/-- A block comment that is given as a list keeps a line with a break in it. Its joined lines
are cut at that break, also when the comment is copied with them as its text. -/
theorem listed_lines_cut_again :
    Node.ofFields .blockComment { entries := [("value", .list [.text "a\nb"])] } =
      .ok (.blockComment (.lines ["a\nb"]) {}) ∧
    (Node.blockComment (.lines ["a\nb"]) {}).copyWith
      { entries := [("value", .text (CommentText.lines ["a\nb"]).joined)] } =
      .ok (.blockComment (.lines ["a", "b"]) {}) ∧
    CommentText.split (CommentText.lines ["a\nb"]).joined ≠ .lines ["a\nb"] := by
  refine ⟨rfl, ?copied, ?cut⟩
  case copied => rfl
  case cut => decide

end OpenScad
