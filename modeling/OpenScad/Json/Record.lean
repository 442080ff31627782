/-
# Records in JSON texts

A record is read from an object by the names of its slots, or from a list by
their order. The text is read from front to back and the first thing wrong with
it is reported, be it a fault of form or a value that its slot does not accept.
Members that no slot knows are passed over. A slot that is filled twice is
refused when its name comes up again, and one that stays empty when the object
ends, in the order of the slots.

Key definitions: `Json.Shape`, `Json.RecordError`, `Json.readRecord`.
-/
import OpenScad.Json.Quantity
import OpenScad.Json.Read

namespace OpenScad
namespace Json

/-- What a slot accepts. -/
inductive Want where
  | real
  | whole
  | text
  | optionalText
  deriving DecidableEq, Repr

/-- A named place of a record. -/
structure Slot where
  name : String
  otherName : Option String := none
  want : Want
  deriving Repr

/-- A kind of record. -/
structure Shape where
  title : String
  slots : List Slot
  deriving Repr

/-- What a slot holds. -/
inductive Content where
  | real (x : Binary64)
  | whole (n : Nat)
  | text (value : String)
  | absent
  deriving Repr

/-- A value where another one is expected. -/
inductive Found where
  | null
  | boolean (value : Bool)
  | quantity (value : Quantity)
  | text (value : List Char)
  | list
  | object
  deriving DecidableEq, Repr

/-- Why a text does not give a record. -/
inductive RecordError where
  /-- The text is no JSON text, or goes on after the record. -/
  | malformed
  | wrongType (found : Found) (expected : String)
  | wrongValue (n : Int) (expected : String)
  | wrongLength (count : Nat) (title : String) (slots : Nat)
  | duplicate (name : String)
  | missing (name : String)
  /-- The values are of the right type but the record refuses them. -/
  | refused (cause : NodeError)
  deriving DecidableEq, Repr

/-- How a message speaks of a value. -/
def Found.describe : Found → String
  | null => "null"
  | boolean value => "boolean \x60" ++ toString value ++ "\x60"
  | quantity value => value.describe
  | text value => "string " ++ Text.quoted (String.ofList value)
  | list => "sequence"
  | object => "map"

/-- The message of an error; a text that is no JSON text has none. -/
def RecordError.message? : RecordError → Option String
  | malformed => none
  | wrongType found expected =>
    some ("invalid type: " ++ found.describe ++ ", expected " ++ expected)
  | wrongValue n expected =>
    some ("invalid value: integer \x60" ++ toString n ++ "\x60, expected " ++ expected)
  | wrongLength count title slots =>
    some ("invalid length " ++ toString count ++ ", expected " ++ title ++ " with " ++
      toString slots ++ " elements")
  | duplicate name => some ("duplicate field \x60" ++ name ++ "\x60")
  | missing name => some ("missing field \x60" ++ name ++ "\x60")
  | refused cause => some cause.message

/-- What a slot asks for, as a message says it. -/
def Want.expected : Want → String
  | .real => "f64"
  | .whole => "usize"
  | .text | .optionalText => "a string"

/-! ### Single values -/

/-- The value that a token starts, where it is not what was expected. -/
def Token.found? : Token → Option Found
  | .null => some .null
  | .boolean value => some (.boolean value)
  | .number value => value.toQuantity?.map .quantity
  | .text units => (joinUnits units).map .text
  | .openBracket => some .list
  | .openBrace => some .object
  | _ => none

/-- The error for a token where something else is expected. -/
def Token.refuse (token : Token) (expected : String) : RecordError :=
  match token.found? with
  | some found => .wrongType found expected
  | none => .malformed

/-- What a number gives for a slot. -/
def Want.ofQuantity (want : Want) (value : Quantity) : Except RecordError Content :=
  match want, value with
  | .real, .natural n => .ok (.real (.ofInt n))
  | .real, .negative n => .ok (.real (.ofInt n))
  | .real, .real x => .ok (.real x)
  | .whole, .natural n => .ok (.whole n)
  | .whole, .negative n => .error (.wrongValue n want.expected)
  | _, value => .error (.wrongType (.quantity value) want.expected)

/-- What a token gives for a slot. -/
def Want.ofToken (want : Want) (token : Token) : Except RecordError Content :=
  match want, token with
  | .optionalText, .null => .ok .absent
  | .optionalText, .text units | .text, .text units =>
    match joinUnits units with
    | some chars => .ok (.text (String.ofList chars))
    | none => .error .malformed
  | want, .number value =>
    match value.toQuantity? with
    | some quantity => want.ofQuantity quantity
    | none => .error .malformed
  | want, token => .error (token.refuse want.expected)

/-- The first token of a text, and the rest. -/
def token (input : List Char) : Except RecordError (Token × List Char) :=
  match next input with
  | some found => .ok found
  | none => .error .malformed

/-- The content of a slot at the front of a text, and the rest. -/
def readSlot (want : Want) (input : List Char) : Except RecordError (Content × List Char) := do
  let (found, rest) ← token input
  return (← want.ofToken found, rest)

/-! ### Objects -/

/-- The contents of slots by name. -/
abbrev Contents := List (String × Content)

/-- The slot that a member's name belongs to. -/
def Shape.slot? (shape : Shape) (name : String) : Option Slot :=
  shape.slots.find? fun slot => slot.name == name || slot.otherName == some name

/-- The first slot that must be filled and is not. -/
def Shape.empty? (shape : Shape) (filled : Contents) : Option Slot :=
  shape.slots.find? fun slot => slot.want != .optionalText && (filled.lookup slot.name).isNone

/-- Reads what stands between a member's name and the next comma. -/
def readMember (shape : Shape) (filled : Contents) (name : List Char) (input : List Char) :
    Except RecordError (Contents × List Char) := do
  match shape.slot? (String.ofList name) with
  | some slot =>
    if (filled.lookup slot.name).isSome then throw (.duplicate slot.name)
    let some rest := expect .colon input | throw .malformed
    let (content, rest) ← readSlot slot.want rest
    return ((slot.name, content) :: filled, rest)
  | none =>
    let some rest := expect .colon input | throw .malformed
    let some rest := skipValue rest | throw .malformed
    return (filled, rest)

/-- Reads members up to the closing brace. The count bounds the members read; the first
one has no comma before it. -/
def readObject (shape : Shape) : Nat → Bool → Contents → List Char →
    Except RecordError (Contents × List Char)
  | 0, _, _, _ => .error .malformed
  | n + 1, first, filled, input => do
    let (found, rest) ← token input
    if found = .closeBrace then
      match shape.empty? filled with
      | some slot => throw (.missing slot.name)
      | none => return (filled, rest)
    else
      let (found, rest) ←
        if first then pure (found, rest)
        else if found = .comma then token rest
        else throw .malformed
      match found with
      | .text units =>
        let some name := joinUnits units | throw .malformed
        let (filled, rest) ← readMember shape filled name rest
        readObject shape n false filled rest
      | _ => throw .malformed

/-! ### Lists -/

/-- Where the next item of a list starts; none if the list ends here. -/
def nextItem (first : Bool) (input : List Char) : Except RecordError (Option (List Char)) := do
  let (found, rest) ← token input
  if found = .closeBracket then return none
  else if first then return some input
  else if found = .comma then
    let (after, _) ← token rest
    if after = .closeBracket then throw .malformed else return some rest
  else throw .malformed

/-- Reads the slots in order, `index` of which are behind. -/
def readSlots (shape : Shape) : Nat → List Slot → List Char →
    Except RecordError (Contents × List Char)
  | _, [], input => return ([], input)
  | index, slot :: slots, input => do
    match ← nextItem (index == 0) input with
    | some item =>
      let (content, rest) ← readSlot slot.want item
      let (contents, rest) ← readSlots shape (index + 1) slots rest
      return ((slot.name, content) :: contents, rest)
    | none =>
      if slot.want = .optionalText then readSlots shape (index + 1) slots input
      else throw (.wrongLength index shape.title shape.slots.length)

/-! ### Records -/

/-- The record at the front of a text, and the rest. -/
def readRecord (shape : Shape) (input : List Char) :
    Except RecordError (Contents × List Char) := do
  let (found, rest) ← token input
  match found with
  | .openBrace => readObject shape (rest.length + 1) true [] rest
  | .openBracket =>
    let (contents, rest) ← readSlots shape 0 shape.slots rest
    match expect .closeBracket rest with
    | some rest => return (contents, rest)
    | none => throw .malformed
  | found => throw (found.refuse shape.title)

/-- The value that a whole text gives: the record, what `build` makes of it, and nothing
after it. -/
def decode {α : Type} (shape : Shape) (build : Contents → Except RecordError α)
    (input : List Char) : Except RecordError α := do
  let (contents, rest) ← readRecord shape input
  let value ← build contents
  if (skipBlanks rest).isEmpty then return value else throw .malformed

end Json
end OpenScad
