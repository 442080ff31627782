/-
# Tokens

A token has a value and the coordinates where it starts, which are words of the
machine. Its raw text is what it was matched from, where that differs from the
value; its end lies past the raw text. Coordinates are checked when they are
asked for, not before, and those of the end are not checked at all.

Key definitions: `Token`, `Token.rawText`, `Token.position`, `Token.endPosition`.
-/
import OpenScad.Position

namespace OpenScad

/-- A piece of source text with its place. -/
structure Token where
  value : String
  text : Option String := none
  line : Nat
  column : Nat
  offset : Nat
  deriving DecidableEq, Repr

namespace Token

/-- The text that the token was matched from. -/
def rawText (token : Token) : String := token.text.getD token.value

/-- Where the token starts. -/
def position (token : Token) : Except NodeError Position :=
  Position.ofCoordinates token.line token.column token.offset

/-- The place just past the token. -/
def endPosition (token : Token) (arith : Arithmetic) : Except NodeError Position := do
  (← token.position).advance arith token.rawText.toList

/-- A token that starts at a position. -/
def starting (position : Position) (value : String) : Token :=
  { value, line := position.line, column := position.column, offset := position.offset }

variable {token : Token} {arith : Arithmetic} {start stop : Position}

theorem valid_position (h : token.position = .ok start) : start.Valid :=
  (Position.ofCoordinates_eq_ok h).1

theorem endPosition_of_position (h : token.position = .ok start) :
    token.endPosition arith = start.advance arith token.rawText.toList := by
  rw [endPosition, h]
  rfl

/-- The end of a token lies past its raw text, from where the token starts. -/
theorem exists_advance_of_endPosition (h : token.endPosition arith = .ok stop) :
    ∃ start, token.position = .ok start ∧ start.advance arith token.rawText.toList = .ok stop := by
  cases hstart : token.position with
  | error e =>
    rw [endPosition, hstart] at h
    cases h
  | ok start => exact ⟨start, rfl, endPosition_of_position hstart ▸ h⟩

/-- The end of a token is what additions make of its exact end. -/
theorem endPosition_of_exact (h : token.endPosition .exact = .ok stop) :
    token.endPosition arith = stop.inWords arith := by
  obtain ⟨start, hstart, hstop⟩ := exists_advance_of_endPosition h
  rw [Position.advance_exact, Except.ok.injEq] at hstop
  rw [endPosition_of_position hstart, Position.advance, hstop]

theorem valid_endPosition (h : token.endPosition .exact = .ok stop) : stop.Valid := by
  obtain ⟨start, hstart, hstop⟩ := exists_advance_of_endPosition h
  cases hstop
  exact (valid_position hstart).past _

end Token
end OpenScad
