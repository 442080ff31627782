/-
# Byte offsets and the way past a text

The index of a text finds the position of a byte offset from the starts of the
lines. An offset that lies between two characters has the position that one
gets to past the text before it, unless the offset cuts a line break of two
characters in two (`LineIndex.position_eq_past`).

The starts of a text's lines are those of its front and then those of the rest,
and each lies behind a front of the text. So the starts at or before an offset
are those of the text before it; their number is the number of lines that one
goes down, and the last of them is where the column is counted from.

Key theorems: `LineIndex.startsFrom_append`, `LineIndex.column_past`,
`LineIndex.position_eq_past`.
-/
import OpenScad.Position.LineIndex
import OpenScad.Proofs.Position.Past

namespace OpenScad
namespace LineIndex

/-! ### Bytes and characters -/

theorem byteLength_cons (c : Char) (text : List Char) :
    byteLength (c :: text) = c.utf8Size + byteLength text := rfl

theorem byteLength_append (s t : List Char) :
    byteLength (s ++ t) = byteLength s + byteLength t := by
  induction s with
  | nil => exact (Nat.zero_add _).symm
  | cons c s ih => rw [List.cons_append, byteLength_cons, byteLength_cons, ih, Nat.add_assoc]

/-- The bytes of a text's front spell its characters. -/
theorem charsIn_byteLength (front rest : List Char) :
    charsIn (front ++ rest) (byteLength front) = some front.length := by
  induction front with
  | nil => cases rest <;> rfl
  | cons c front ih =>
    have hsize : 0 < c.utf8Size := c.utf8Size_pos
    obtain ⟨n, hn⟩ : ∃ n, byteLength (c :: front) = n + 1 :=
      Nat.exists_eq_add_one.mpr (by rw [byteLength_cons]; omega)
    have hrest : n + 1 - c.utf8Size = byteLength front := by
      rw [← hn, byteLength_cons]
      omega
    have hle : c.utf8Size ≤ n + 1 := by
      rw [← hn, byteLength_cons]
      omega
    rw [hn, List.cons_append, charsIn, if_pos hle, hrest, ih]
    rfl

/-! ### The starts of lines -/

section Starts

variable {c : Char} {front rest text : List Char} {byte char : Nat}

theorem startsFrom_char (h : ¬(c = '\r' ∨ c = '\n')) :
    startsFrom byte char (c :: rest) = startsFrom (byte + c.utf8Size) (char + 1) rest := by
  obtain ⟨hcr, hlf⟩ := not_or.mp h
  simp [startsFrom, hcr, hlf]

theorem startsFrom_break (h : c = '\r' ∨ c = '\n') (hr : c = '\r' → rest.head? ≠ some '\n') :
    startsFrom byte char (c :: rest) =
      { byte := byte + c.utf8Size, char := char + 1 } ::
        startsFrom (byte + c.utf8Size) (char + 1) rest := by
  rcases h with rfl | rfl
  · simp [startsFrom, hr rfl]
  · simp [startsFrom]

theorem startsFrom_pair : startsFrom byte char ('\r' :: '\n' :: rest) =
    { byte := byte + 1 + 1, char := char + 2 } :: startsFrom (byte + 1 + 1) (char + 2) rest := by
  have hcr : '\r'.utf8Size = 1 := by decide
  have hlf : '\n'.utf8Size = 1 := by decide
  simp [startsFrom, hcr, hlf]

/-- The starts of lines are those of the front and those of the rest, if no line break is cut in
two between them. -/
theorem startsFrom_append (h : front.getLast? = some '\r' → rest.head? ≠ some '\n') :
    startsFrom byte char (front ++ rest) = startsFrom byte char front ++
      startsFrom (byte + byteLength front) (char + front.length) rest := by
  induction front generalizing byte char with
  | nil => rfl
  | cons c front ih =>
    have hlater : front.getLast? = some '\r' → rest.head? ≠ some '\n' := fun hlast =>
      h (by simp [List.getLast?_cons, hlast])
    -- whether the character ends a line does not depend on what is behind the front
    have hbreak : (c = '\n' ∨ (c = '\r' ∧ (front ++ rest).head? ≠ some '\n')) ↔
        (c = '\n' ∨ (c = '\r' ∧ front.head? ≠ some '\n')) := by
      cases front with
      | nil =>
        refine or_congr_right (and_congr_right fun hc => ?_)
        have := h (by simp [hc])
        simp [this]
      | cons d front => rfl
    have hbyte : byte + c.utf8Size + byteLength front = byte + byteLength (c :: front) := by
      rw [byteLength_cons, Nat.add_assoc]
    have hchar : char + 1 + front.length = char + (c :: front).length := by
      rw [List.length_cons]
      omega
    rw [List.cons_append, startsFrom, startsFrom, ih hlater, hbyte, hchar]
    simp only [hbreak]
    split <;> rfl

/-- A line starts behind some front of the text. -/
theorem exists_front_of_mem {s : LineStart} (h : s ∈ startsFrom byte char text) :
    ∃ u v, text = u ++ v ∧ u ≠ [] ∧
      s = { byte := byte + byteLength u, char := char + u.length } := by
  induction text generalizing byte char with
  | nil => cases h
  | cons c rest ih =>
    have later (hs : s ∈ startsFrom (byte + c.utf8Size) (char + 1) rest) : ∃ u v,
        c :: rest = u ++ v ∧ u ≠ [] ∧
          s = { byte := byte + byteLength u, char := char + u.length } := by
      obtain ⟨u, v, rfl, -, rfl⟩ := ih hs
      refine ⟨c :: u, v, rfl, List.cons_ne_nil c u, ?_⟩
      rw [byteLength_cons, List.length_cons, Nat.add_assoc, Nat.add_assoc, Nat.add_comm 1]
    rw [startsFrom] at h
    simp only at h
    split at h
    · rcases List.mem_cons.mp h with rfl | h
      · exact ⟨[c], rest, rfl, List.cons_ne_nil c [], rfl⟩
      · exact later h
    · exact later h

theorem lt_byte_of_mem {s : LineStart} (h : s ∈ startsFrom byte char text) : byte < s.byte := by
  obtain ⟨u, v, -, hu, rfl⟩ := exists_front_of_mem h
  obtain ⟨c, u, rfl⟩ := List.exists_cons_of_ne_nil hu
  have := c.utf8Size_pos
  simp only [byteLength_cons]
  omega

theorem byte_le_of_mem {s : LineStart} (h : s ∈ startsFrom byte char text) :
    s.byte ≤ byte + byteLength text := by
  obtain ⟨u, v, rfl, -, rfl⟩ := exists_front_of_mem h
  simp only [byteLength_append]
  omega

/-- The starts at or before a place behind a front are those of the front, if no other line starts
before that place. -/
theorem takeWhile_starts {place : Nat} (h : front.getLast? = some '\r' → rest.head? ≠ some '\n')
    (hle : byteLength front ≤ place)
    (hlt : ∀ s ∈ startsFrom (byteLength front) front.length rest, place < s.byte) :
    ((startsFrom 0 0 (front ++ rest)).takeWhile fun s => s.byte ≤ place) =
      startsFrom 0 0 front := by
  have hfront : ∀ s ∈ startsFrom 0 0 front, decide (s.byte ≤ place) = true := by
    intro s hs
    have := byte_le_of_mem hs
    exact decide_eq_true (by omega)
  rw [startsFrom_append h, List.takeWhile_append_of_pos hfront, Nat.zero_add, Nat.zero_add]
  cases hrest : startsFrom (byteLength front) front.length rest with
  | nil => simp
  | cons s more =>
    have hs : place < s.byte := hlt s (hrest ▸ List.mem_cons_self)
    rw [List.takeWhile_cons_of_neg (by simpa using hs), List.append_nil]

end Starts

/-! ### The position of an offset -/

/-- Every start of a line in a text is a line that one goes down past it. -/
theorem line_past (text : List Char) : ∀ (p : Position) (byte char : Nat),
    (p.past text).line = p.line + (startsFrom byte char text).length := by
  induction text using Text.splitLines.induct with
  | case1 =>
    intro p byte char
    rfl
  | case2 rest ih =>
    intro p byte char
    rw [Position.past_pair, startsFrom_pair, ih _ (byte + 1 + 1) (char + 2), List.length_cons]
    simp only [Position.below]
    omega
  | case3 c rest hne hc ih =>
    intro p byte char
    have hpair := Text.head?_ne_of_not_pair hne
    rw [Position.past_break p hc hpair, startsFrom_break hc hpair,
      ih _ (byte + c.utf8Size) (char + 1), List.length_cons]
    simp only [Position.below]
    omega
  | case4 c rest hne hc ih =>
    intro p byte char
    rw [Position.past_char p hc, startsFrom_char hc, ih _ (byte + c.utf8Size) (char + 1),
      Position.right]

/-- The column of a place on a line: so many characters behind the last start of a line, or behind
a position on the same line. -/
def columnBehind (p : Position) (start : Option LineStart) (char length : Nat) : Nat :=
  match start with
  | none => p.column + length
  | some s => 1 + (char + length - s.char)

/-- Behind the front of a line, the column is counted from there or from a later start. -/
theorem columnBehind_below (p : Position) (starts : List LineStart) (byte char n length : Nat) :
    columnBehind (p.below n) starts.getLast? (char + n) length =
      columnBehind p ({ byte := byte, char := char + n } :: starts).getLast? char (length + n) := by
  rw [List.getLast?_cons]
  cases starts.getLast? with
  | none =>
    simp only [columnBehind, Option.getD_none, Position.below]
    omega
  | some last =>
    simp only [columnBehind, Option.getD_some]
    omega

/-- Past a text, the column is counted from the last start of a line in it. -/
theorem column_past (text : List Char) : ∀ (p : Position) (byte char : Nat),
    (p.past text).column =
      columnBehind p (startsFrom byte char text).getLast? char text.length := by
  induction text using Text.splitLines.induct with
  | case1 =>
    intro p byte char
    rfl
  | case2 rest ih =>
    intro p byte char
    rw [Position.past_pair, startsFrom_pair, ih _ (byte + 1 + 1) (char + 2)]
    exact columnBehind_below p _ _ char 2 rest.length
  | case3 c rest hne hc ih =>
    intro p byte char
    have hpair := Text.head?_ne_of_not_pair hne
    rw [Position.past_break p hc hpair, startsFrom_break hc hpair,
      ih _ (byte + c.utf8Size) (char + 1)]
    exact columnBehind_below p _ _ char 1 rest.length
  | case4 c rest hne hc ih =>
    intro p byte char
    rw [Position.past_char p hc, startsFrom_char hc, ih _ (byte + c.utf8Size) (char + 1)]
    cases (startsFrom (byte + c.utf8Size) (char + 1) rest).getLast? with
    | none =>
      simp only [columnBehind, Position.right, List.length_cons]
      omega
    | some s =>
      simp only [columnBehind, List.length_cons]
      omega

/-- The last start of a line in a text, or the front of the text. -/
def lastStart (text : List Char) : LineStart :=
  (startsFrom 0 0 text).getLast?.getD { byte := 0, char := 0 }

/-- From the last start of a line in the front, the index counts the characters up to a place
behind the front. -/
theorem charsIn_behind_lastStart (front more rest : List Char) :
    (lastStart front).char ≤ front.length ∧
      charsIn ((front ++ (more ++ rest)).drop (lastStart front).char)
        (byteLength (front ++ more) - (lastStart front).byte) =
          some (front.length + more.length - (lastStart front).char) := by
  obtain ⟨u, v, hfront, hstart⟩ : ∃ u v, front = u ++ v ∧
      lastStart front = { byte := byteLength u, char := u.length } := by
    cases hlast : (startsFrom 0 0 front).getLast? with
    | none => exact ⟨[], front, rfl, by rw [lastStart, hlast]; rfl⟩
    | some s =>
      obtain ⟨u, v, hfront, -, rfl⟩ := exists_front_of_mem (List.mem_of_getLast? hlast)
      refine ⟨u, v, hfront, ?_⟩
      rw [lastStart, hlast, Option.getD_some, Nat.zero_add, Nat.zero_add]
  have hchars := charsIn_byteLength (v ++ more) rest
  rw [hstart, hfront]
  refine ⟨by simp, ?_⟩
  rw [List.append_assoc, List.append_assoc, List.drop_left, byteLength_append,
    Nat.add_sub_cancel_left, ← List.append_assoc, hchars]
  simp only [List.length_append, Option.some.injEq]
  omega

/-- Past a text from its front, the column is counted from the last start of a line. -/
theorem column_origin_past (text : List Char) :
    (Position.origin.past text).column = text.length - (lastStart text).char + 1 := by
  rw [column_past text Position.origin 0 0, lastStart]
  cases (startsFrom 0 0 text).getLast? with
  | none =>
    simp only [columnBehind, Position.origin, Option.getD_none]
    omega
  | some last =>
    simp only [columnBehind, Option.getD_some]
    omega

/-- Before the next line starts, the index counts the columns on from the position past a front. -/
theorem position_on_line {front more rest : List Char}
    (h : front.getLast? = some '\r' → (more ++ rest).head? ≠ some '\n')
    (hlt : ∀ s ∈ startsFrom (byteLength front) front.length (more ++ rest),
      byteLength (front ++ more) < s.byte) :
    let text := front ++ (more ++ rest)
    let q := (ofText text).position text (byteLength (front ++ more))
    q.line = (Position.origin.past front).line ∧
      q.column = (Position.origin.past front).column + more.length ∧
      q.offset = front.length + more.length := by
  intro text q
  have hsize : byteLength text = byteLength (front ++ more) + byteLength rest := by
    rw [← byteLength_append, List.append_assoc]
  have hle : byteLength front ≤ byteLength (front ++ more) := by
    rw [byteLength_append]
    exact Nat.le_add_right _ _
  have hmin : min (byteLength (front ++ more)) (ofText text).size = byteLength (front ++ more) := by
    simp only [ofText, hsize]
    omega
  have hlocate : (ofText text).locate (byteLength (front ++ more)) =
      ((startsFrom 0 0 front).length, lastStart front) := by
    simp only [locate, ofText, text, takeWhile_starts h hle hlt, lastStart]
  obtain ⟨hstart, hchars⟩ := charsIn_behind_lastStart front more rest
  have hline : (Position.origin.past front).line = 1 + (startsFrom 0 0 front).length :=
    line_past front Position.origin 0 0
  have hcolumn := column_origin_past front
  simp only [q, position, hmin, hlocate, text, hchars, Option.getD_some]
  omega

/-- **The index gives the position past the text before an offset**, if the offset does not cut a
line break in two. -/
theorem position_eq_past {front rest : List Char}
    (h : front.getLast? = some '\r' → rest.head? ≠ some '\n') :
    (ofText (front ++ rest)).position (front ++ rest) (byteLength front) =
      Position.origin.past front := by
  have hlt : ∀ s ∈ startsFrom (byteLength front) front.length ([] ++ rest),
      byteLength (front ++ []) < s.byte := by
    intro s hs
    rw [List.append_nil]
    exact lt_byte_of_mem hs
  obtain ⟨hline, hcolumn, hoffset⟩ := position_on_line h hlt
  simp only [List.append_nil, List.nil_append, List.length_nil, Nat.add_zero]
    at hline hcolumn hoffset
  refine Position.eq_of_coordinates hline hcolumn (hoffset.trans ?_)
  rw [Position.offset_past]
  exact (Nat.zero_add _).symm

end LineIndex
end OpenScad
