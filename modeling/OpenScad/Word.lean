/-
# Words of the machine

Coordinates are words of 64 bits. What an addition does with a sum that does not
fit into a word depends on how the program was built: it ends the run, or it
keeps the lower 64 bits. Positions inside a source that is held in memory never
come near that bound, and there additions are exact.

Sizes in memory are words that leave the sign bit free. So no text has more than
half as many bytes as there are words.

Key definitions: `wordLimit`, `lengthLimit`, `Arithmetic`, `Arithmetic.wordOf`.
-/
import OpenScad.Node.Error

namespace OpenScad

/-- The number of values of a word of 64 bits. -/
def wordLimit : Nat := Nat.pow 2 64

/-- A text has fewer bytes than this. -/
def lengthLimit : Nat := Nat.pow 2 63

/-- What an addition does with a sum that is no word. -/
inductive Arithmetic where
  /-- It gives the sum: there is no bound. -/
  | exact
  /-- It ends the run. -/
  | checked
  /-- It gives the lower bits of the sum. -/
  | wrapping
  deriving DecidableEq, Repr

namespace Arithmetic

variable {arith : Arithmetic} {n : Nat}

/-- What an addition gives whose sum is a number. -/
def wordOf (n : Nat) : Arithmetic → Except NodeError Nat
  | exact => .ok n
  | checked => if n < wordLimit then .ok n else .error .overflow
  | wrapping => .ok (n % wordLimit)

@[simp]
theorem wordOf_exact (n : Nat) : exact.wordOf n = .ok n := rfl

@[simp]
theorem wordOf_wrapping (n : Nat) : wrapping.wordOf n = .ok (n % wordLimit) := rfl

/-- A word is what it is under every arithmetic. -/
@[simp]
theorem wordOf_of_lt (h : n < wordLimit) : arith.wordOf n = .ok n := by
  cases arith with
  | exact => rfl
  | checked => exact if_pos h
  | wrapping => exact congrArg Except.ok (Nat.mod_eq_of_lt h)

/-- Where additions are checked, nothing but words comes out. -/
@[simp]
theorem wordOf_checked_eq_ok_iff {m : Nat} :
    checked.wordOf n = .ok m ↔ n < wordLimit ∧ n = m := by
  by_cases h : n < wordLimit <;> simp [wordOf, h]

end Arithmetic
end OpenScad
