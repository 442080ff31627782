/-
# Positions in a source text

A position is a line and a column, both counted from one, and an offset counted
from zero. All three count characters. Moving past a text goes to the column
after it on the same line, or into its last line if it has line breaks.

Coordinates are checked where a position is made of them, and not where it is
moved: a sum that is no word of the machine ends the run or loses its upper
bits (`Position.advance`), and then a line or a column can be zero.

Key definitions: `Position`, `Position.Valid`, `Position.ofCoordinates`,
`Position.patched`, `Position.past`, `Position.advance`.
-/
import OpenScad.Text.Lines
import OpenScad.Word

namespace OpenScad

/-- A point in a source text. -/
structure Position where
  line : Nat
  column : Nat
  offset : Nat
  deriving DecidableEq, Repr

/-- Coordinates that replace those of a position; an absent one keeps its value. -/
structure PositionPatch where
  line : Option Nat := none
  column : Option Nat := none
  offset : Option Nat := none
  deriving DecidableEq, Repr

namespace Position

/-- The line and the column count from one. -/
structure Valid (p : Position) : Prop where
  one_le_line : 1 ≤ p.line
  one_le_column : 1 ≤ p.column

/-- The coordinates are words of the machine. -/
structure Fits (p : Position) : Prop where
  line_lt : p.line < wordLimit
  column_lt : p.column < wordLimit
  offset_lt : p.offset < wordLimit

instance (p : Position) : Decidable p.Valid :=
  decidable_of_iff (1 ≤ p.line ∧ 1 ≤ p.column) ⟨fun h => ⟨h.1, h.2⟩, fun h => ⟨h.1, h.2⟩⟩

instance (p : Position) : Decidable p.Fits :=
  decidable_of_iff (p.line < wordLimit ∧ p.column < wordLimit ∧ p.offset < wordLimit)
    ⟨fun h => ⟨h.1, h.2.1, h.2.2⟩, fun h => ⟨h.1, h.2, h.3⟩⟩

/-! ### Making -/

/-- Where a source text starts. -/
def origin : Position := { line := 1, column := 1, offset := 0 }

theorem valid_origin : origin.Valid := by decide

/-- A coordinate that is not below its least value. -/
def coordinateOf (axis : Axis) (value : Nat) : Except NodeError Nat :=
  if axis.least ≤ value then .ok value else .error (.badCoordinate axis (toString value))

/-- The position with the given coordinates. The line is checked before the column. -/
def ofCoordinates (line column offset : Nat) : Except NodeError Position := do
  let line ← coordinateOf .line line
  let column ← coordinateOf .column column
  return { line, column, offset }

/-- The position with some coordinates replaced. Only these are checked. -/
def patched (p : Position) (patch : PositionPatch) : Except NodeError Position := do
  let line ← patch.line.elim (.ok p.line) (coordinateOf .line)
  let column ← patch.column.elim (.ok p.column) (coordinateOf .column)
  return { line, column, offset := patch.offset.getD p.offset }

theorem ofCoordinates_self {p : Position} (h : p.Valid) :
    ofCoordinates p.line p.column p.offset = .ok p := by
  have hline : Axis.line.least ≤ p.line := h.one_le_line
  have hcolumn : Axis.column.least ≤ p.column := h.one_le_column
  rw [ofCoordinates, coordinateOf, if_pos hline, coordinateOf, if_pos hcolumn]
  rfl

theorem ofCoordinates_eq_ok {line column offset : Nat} {p : Position}
    (h : ofCoordinates line column offset = .ok p) :
    p.Valid ∧ p.line = line ∧ p.column = column ∧ p.offset = offset := by
  unfold ofCoordinates coordinateOf at h
  by_cases hline : Axis.line.least ≤ line
  · rw [if_pos hline] at h
    by_cases hcolumn : Axis.column.least ≤ column
    · rw [if_pos hcolumn] at h
      cases h
      exact ⟨⟨hline, hcolumn⟩, rfl, rfl, rfl⟩
    · rw [if_neg hcolumn] at h
      cases h
  · rw [if_neg hline] at h
    cases h

/-! ### Moving -/

/-- The position just past a text that starts at this one. -/
def past (p : Position) (text : List Char) : Position :=
  match Text.splitLines text with
  | [] | [_] =>
    { line := p.line, column := p.column + text.length, offset := p.offset + text.length }
  | _ :: next :: more =>
    { line := p.line + (more.length + 1)
      column := 1 + ((next :: more).getLast (by simp)).length
      offset := p.offset + text.length }

@[simp]
theorem offset_past (p : Position) (text : List Char) :
    (p.past text).offset = p.offset + text.length := by
  unfold past
  split <;> rfl

theorem Valid.past {p : Position} (h : p.Valid) (text : List Char) : (p.past text).Valid := by
  have hline := h.one_le_line
  have hcolumn := h.one_le_column
  unfold Position.past
  split <;> constructor <;> dsimp only <;> omega

/-- The position whose coordinates are the sums, as additions give them. -/
def inWords (sums : Position) (arith : Arithmetic) : Except NodeError Position := do
  let line ← arith.wordOf sums.line
  let column ← arith.wordOf sums.column
  let offset ← arith.wordOf sums.offset
  return { line, column, offset }

/-- The position past a text, as additions give it. -/
def advance (p : Position) (arith : Arithmetic) (text : List Char) : Except NodeError Position :=
  (p.past text).inWords arith

variable {p q : Position} {arith : Arithmetic}

@[simp]
theorem inWords_exact (p : Position) : p.inWords .exact = .ok p := rfl

@[simp]
theorem inWords_wrapping (p : Position) : p.inWords .wrapping =
    .ok { line := p.line % wordLimit, column := p.column % wordLimit
          offset := p.offset % wordLimit } := rfl

@[simp]
theorem advance_exact (p : Position) (text : List Char) :
    p.advance .exact text = .ok (p.past text) := rfl

/-- Words stay what they are. -/
theorem inWords_of_fits (h : p.Fits) : p.inWords arith = .ok p := by
  simp [inWords, h.line_lt, h.column_lt, h.offset_lt]

theorem inWords_checked_eq_ok_iff : p.inWords .checked = .ok q ↔ p.Fits ∧ p = q := by
  constructor
  · intro h
    obtain ⟨line, hline, h⟩ := exists_of_bind_eq_ok h
    obtain ⟨column, hcolumn, h⟩ := exists_of_bind_eq_ok h
    obtain ⟨offset, hoffset, h⟩ := exists_of_bind_eq_ok h
    obtain ⟨line_lt, rfl⟩ := Arithmetic.wordOf_checked_eq_ok_iff.mp hline
    obtain ⟨column_lt, rfl⟩ := Arithmetic.wordOf_checked_eq_ok_iff.mp hcolumn
    obtain ⟨offset_lt, rfl⟩ := Arithmetic.wordOf_checked_eq_ok_iff.mp hoffset
    cases h
    exact ⟨⟨line_lt, column_lt, offset_lt⟩, rfl⟩
  · rintro ⟨hfits, rfl⟩
    exact inWords_of_fits hfits

/-- Sums are kept if they are words, or if additions are exact. -/
theorem inWords_eq_self_iff : p.inWords arith = .ok p ↔ (arith ≠ .exact → p.Fits) := by
  cases arith with
  | exact => exact ⟨fun _ h => absurd rfl h, fun _ => rfl⟩
  | checked =>
    exact ⟨fun h _ => (inWords_checked_eq_ok_iff.mp h).1, fun h => inWords_of_fits (h nofun)⟩
  | wrapping =>
    refine ⟨fun h _ => ?_, fun h => inWords_of_fits (h nofun)⟩
    rw [inWords_wrapping] at h
    have hlimit : 0 < wordLimit := by decide
    rw [← Except.ok.inj h]
    exact ⟨Nat.mod_lt _ hlimit, Nat.mod_lt _ hlimit, Nat.mod_lt _ hlimit⟩

/-- Only checked additions can fail. -/
theorem exists_inWords (h : arith = .checked → p.Fits) : ∃ q, p.inWords arith = .ok q := by
  cases arith with
  | exact => exact ⟨p, rfl⟩
  | checked => exact ⟨p, inWords_of_fits (h rfl)⟩
  | wrapping => exact ⟨_, rfl⟩

end Position
end OpenScad
