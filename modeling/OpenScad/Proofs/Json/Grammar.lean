/-
# The grammar of JSON texts

Which texts spell a JSON value, and which value, after RFC 8259. A text is a
value between blanks. A value is one of three words, a number, a string, a list
or an object; blanks may stand around every item, member, name and value, and a
comma stands between two items or members, none after the last.

A number has no needless leading zero and at least one digit in each of its
parts. Between the quotes of a string stands every character but the quote, the
backslash and the controls below the space, an escape by a letter, or an escape
by the four digits of a code of sixteen bits.

Key definitions: `Json.Numeral.Spelled`, `Json.SpellsUnits`, `Json.Spells`,
`Json.IsTextOf`.
-/
import OpenScad.Json.Read

namespace OpenScad
namespace Json

/-! ### Blanks and digits -/

/-- The text consists of characters that may stand between tokens. -/
def Blank (w : List Char) : Prop := ∀ c ∈ w, isBlank c = true

/-- The text consists of digits, at least one. -/
structure Digits (ds : List Char) : Prop where
  ne_nil : ds ≠ []
  isDigit : ∀ c ∈ ds, c.isDigit = true

/-! ### Numbers -/

/-- The text spells the fraction, or the absence of one. -/
inductive SpellsFraction : Option (List Char) → List Char → Prop where
  | absent : SpellsFraction none []
  | digits {ds : List Char} (digits : Digits ds) : SpellsFraction (some ds) ('.' :: ds)

/-- The text spells the power of ten, or the absence of one. -/
inductive SpellsPower : Option Int → List Char → Prop where
  | absent : SpellsPower none []
  | plain {mark : Char} {ds : List Char} (mark_mem : mark ∈ ['e', 'E']) (digits : Digits ds) :
      SpellsPower (some (Decimal.ofDigits ds)) (mark :: ds)
  | plus {mark : Char} {ds : List Char} (mark_mem : mark ∈ ['e', 'E']) (digits : Digits ds) :
      SpellsPower (some (Decimal.ofDigits ds)) (mark :: '+' :: ds)
  | minus {mark : Char} {ds : List Char} (mark_mem : mark ∈ ['e', 'E']) (digits : Digits ds) :
      SpellsPower (some (-Decimal.ofDigits ds)) (mark :: '-' :: ds)

/-- The text spells the parts of the numeral, without its sign. -/
structure Numeral.SpelledUnsigned (n : Numeral) (t : List Char) : Prop where
  whole : Digits n.whole
  leading : n.whole = ['0'] ∨ n.whole.head? ≠ some '0'
  parts : ∃ fraction power, SpellsFraction n.fraction fraction ∧ SpellsPower n.exponent power ∧
    t = n.whole ++ (fraction ++ power)

/-- The text spells the numeral. -/
def Numeral.Spelled (n : Numeral) (t : List Char) : Prop :=
  ∃ unsigned, n.SpelledUnsigned unsigned ∧
    t = if n.negative then '-' :: unsigned else unsigned

/-! ### Strings -/

/-- The text spells the elements of a string, without its quotes. -/
inductive SpellsUnits : List Unit16 → List Char → Prop where
  | nil : SpellsUnits [] []
  | char {c : Char} {units : List Unit16} {t : List Char} (visible : 0x20 ≤ c.toNat)
      (ne_quote : c ≠ '"') (ne_backslash : c ≠ '\\') (later : SpellsUnits units t) :
      SpellsUnits (.char c :: units) (c :: t)
  | escape {letter c : Char} {units : List Unit16} {t : List Char}
      (escaped : escaped? letter = some c) (later : SpellsUnits units t) :
      SpellsUnits (.char c :: units) ('\\' :: letter :: t)
  | code {a b c d : Char} {n : Nat} {units : List Unit16} {t : List Char}
      (code : hexCode? a b c d = some n) (later : SpellsUnits units t) :
      SpellsUnits (.code n :: units) ('\\' :: 'u' :: a :: b :: c :: d :: t)

/-- The text is the string of these characters, with its quotes. -/
def SpellsText (chars t : List Char) : Prop :=
  ∃ units inner, SpellsUnits units inner ∧ joinUnits units = some chars ∧
    t = '"' :: (inner ++ ['"'])

/-! ### Values -/

mutual

/-- The text spells the value, without blanks around it. -/
inductive Spells : Json → List Char → Prop where
  | null : Spells null ['n', 'u', 'l', 'l']
  | true : Spells (boolean true) ['t', 'r', 'u', 'e']
  | false : Spells (boolean false) ['f', 'a', 'l', 's', 'e']
  | number {n : Numeral} {t : List Char} (spelled : n.Spelled t) : Spells n.toJson t
  | text {chars t : List Char} (spelled : SpellsText chars t) : Spells (text chars) t
  | emptyList {w : List Char} (blank : Blank w) : Spells (list []) ('[' :: (w ++ [']']))
  | list {items : List Json} {t : List Char} (spelled : SpellsItems items t) :
      Spells (list items) ('[' :: t)
  | emptyObject {w : List Char} (blank : Blank w) :
      Spells (object []) ('\x7b' :: (w ++ ['\x7d']))
  | object {members : List (List Char × Json)} {t : List Char}
      (spelled : SpellsMembers members t) : Spells (object members) ('\x7b' :: t)

/-- The text spells the items of a list, and its closing bracket. -/
inductive SpellsItems : List Json → List Char → Prop where
  | last {item : Json} {w t w' : List Char} (before : Blank w) (spelled : Spells item t)
      (after : Blank w') : SpellsItems [item] (w ++ (t ++ (w' ++ [']'])))
  | more {item : Json} {items : List Json} {w t w' ts : List Char} (before : Blank w)
      (spelled : Spells item t) (after : Blank w') (later : SpellsItems items ts) :
      SpellsItems (item :: items) (w ++ (t ++ (w' ++ ',' :: ts)))

/-- The text spells the members of an object, and its closing brace. -/
inductive SpellsMembers : List (List Char × Json) → List Char → Prop where
  | last {name : List Char} {value : Json} {w t : List Char}
      (spelled : SpellsMember name value t) (after : Blank w) :
      SpellsMembers [(name, value)] (t ++ (w ++ ['\x7d']))
  | more {name : List Char} {value : Json} {members : List (List Char × Json)}
      {w t ts : List Char} (spelled : SpellsMember name value t) (after : Blank w)
      (later : SpellsMembers members ts) :
      SpellsMembers ((name, value) :: members) (t ++ (w ++ ',' :: ts))

/-- The text spells a member, with blanks before its name and around its colon. -/
inductive SpellsMember : List Char → Json → List Char → Prop where
  | mk {name : List Char} {value : Json} {w₁ s w₂ w₃ t : List Char} (before : Blank w₁)
      (spelled_name : SpellsText name s) (beforeColon : Blank w₂) (afterColon : Blank w₃)
      (spelled : Spells value t) :
      SpellsMember name value (w₁ ++ (s ++ (w₂ ++ ':' :: (w₃ ++ t))))

end

/-- The whole text spells the value, between blanks. -/
def IsTextOf (value : Json) (input : List Char) : Prop :=
  ∃ w t w', Blank w ∧ Spells value t ∧ Blank w' ∧ input = w ++ (t ++ w')

end Json
end OpenScad
