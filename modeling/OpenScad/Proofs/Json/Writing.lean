/-
# What is written spells its value

In either layout, at any depth, what is written for a value is a JSON text that
spells the value (`Json.spells_writeAt`). The layouts differ in blanks only.

A number is spelled by its digits, with zeros, a point and a power of ten as its
style has them, so its coefficient and exponent are not always those that are
read back; but without zeros at the end of the coefficient they are
(`Json.normal`). The digits of a zero with a power of ten would start with a
needless zero, so decimals that are zero must have none (`Json.Writable`). What
is written of a document has no others.

Key definitions: `Json.normal`, `Json.Writable`.
Key theorems: `Json.spelled_integer`, `Json.spelled_decimal`,
`Json.spellsText_renderText`, `Json.spells_writeAt`, `Document.isTextOf_jsonText`.
-/
import OpenScad.Proofs.Json.Grammar
import OpenScad.Proofs.Number.Digits
import OpenScad.Proofs.Number.Shortest

namespace OpenScad
namespace Json

/-! ### Numbers -/

theorem digits_toDigits (n : Nat) : Digits (Nat.toDigits 10 n) :=
  ⟨Nat.toDigits_ne_nil, fun _ => Decimal.isDigit_of_mem_toDigits⟩

theorem Digits.zeros_append {ds : List Char} (h : Digits ds) (k : Nat) :
    Digits (List.replicate k '0' ++ ds) := by
  refine ⟨List.append_ne_nil_of_right_ne_nil _ h.ne_nil, fun c hc => ?_⟩
  rcases List.mem_append.mp hc with hzero | hd
  · rw [List.eq_of_mem_replicate hzero]
    rfl
  · exact h.isDigit c hd

theorem Digits.append_zeros {ds : List Char} (h : Digits ds) (k : Nat) :
    Digits (ds ++ List.replicate k '0') := by
  refine ⟨List.append_ne_nil_of_left_ne_nil h.ne_nil _, fun c hc => ?_⟩
  rcases List.mem_append.mp hc with hd | hzero
  · exact h.isDigit c hd
  · rw [List.eq_of_mem_replicate hzero]
    rfl

/-- The digits of a number are a whole part. -/
theorem leading_toDigits (n : Nat) :
    Nat.toDigits 10 n = ['0'] ∨ (Nat.toDigits 10 n).head? ≠ some '0' := by
  rcases Nat.eq_zero_or_pos n with rfl | hn
  · exact .inl rfl
  · exact .inr (Decimal.head?_toDigits hn)

/-- A whole number is spelled by its sign and its digits. -/
theorem spelled_integer (n : Int) :
    ∃ m : Numeral, m.Spelled (renderInteger n) ∧ m.toJson = integer n := by
  let m : Numeral :=
    { negative := decide (n < 0), whole := Nat.toDigits 10 n.natAbs, fraction := none
      exponent := none }
  have hunsigned : m.SpelledUnsigned (Nat.toDigits 10 n.natAbs) :=
    ⟨digits_toDigits _, leading_toDigits _, [], [], .absent, .absent, by simp [m]⟩
  refine ⟨m, ⟨_, hunsigned, ?_⟩, ?_⟩
  · by_cases hneg : n < 0 <;> simp [renderInteger, m, hneg]
  · have hzero : ¬ (n < 0 ∧ n.natAbs = 0) := by omega
    simp only [Numeral.toJson, m, Decimal.ofDigits_toDigits, Bool.and_eq_true, decide_eq_true_eq,
      beq_iff_eq, if_neg hzero]
    congr 1
    split <;> omega

/-- The text without a sign spells a numeral, which is read as this decimal. -/
def SpellsDecimal (negative : Bool) (d : Decimal) (t : List Char) : Prop :=
  ∃ m : Numeral, m.negative = negative ∧ m.SpelledUnsigned t ∧
    m.toJson = decimal negative d.normal

section Decimals

variable {negative : Bool} {d : Decimal}

theorem digits_digits (d : Decimal) : Digits d.digits := digits_toDigits d.coefficient

/-- A numeral with a fraction or a power of ten. -/
theorem spellsDecimal_of_parts {whole fraction power : List Char} {fraction? : Option (List Char)}
    {power? : Option Int} (hwhole : Digits whole)
    (hleading : whole = ['0'] ∨ whole.head? ≠ some '0')
    (hfraction : SpellsFraction fraction? fraction) (hpower : SpellsPower power? power)
    (hparts : fraction? ≠ none ∨ power? ≠ none)
    (hnormal : Decimal.normal { coefficient := Decimal.ofDigits (whole ++ fraction?.getD [])
                                exponent := power?.getD 0 - (fraction?.getD []).length } =
      d.normal) :
    SpellsDecimal negative d (whole ++ (fraction ++ power)) := by
  refine ⟨{ negative, whole, fraction := fraction?, exponent := power? }, rfl,
    ⟨hwhole, hleading, fraction, power, hfraction, hpower, rfl⟩, ?_⟩
  rw [← hnormal]
  cases hfraction <;> cases hpower <;> first | rfl | simp at hparts

/-- A numeral with a fraction and no power of ten. -/
theorem spellsDecimal_of_fraction {whole fraction : List Char} (hwhole : Digits whole)
    (hleading : whole = ['0'] ∨ whole.head? ≠ some '0') (hfraction : Digits fraction)
    (hnormal : Decimal.normal { coefficient := Decimal.ofDigits (whole ++ fraction)
                                exponent := 0 - fraction.length } = d.normal) :
    SpellsDecimal negative d (whole ++ '.' :: fraction) := by
  have h : SpellsDecimal negative d (whole ++ ('.' :: fraction ++ [])) :=
    spellsDecimal_of_parts hwhole hleading (.digits hfraction) .absent
      (.inl (Option.some_ne_none _)) hnormal
  rwa [List.append_nil] at h

theorem head?_digits (hd : d.coefficient ≠ 0) : d.digits.head? ≠ some '0' :=
  Decimal.head?_toDigits (Nat.pos_of_ne_zero hd)

theorem ofDigits_digits (d : Decimal) : Decimal.ofDigits d.digits = d.coefficient :=
  Decimal.ofDigits_toDigits _

/-- A whole number, with zeros up to the point and one behind it. -/
theorem spellsDecimal_whole (hd : d.coefficient = 0 → d.exponent = 0) (hexp : 0 ≤ d.exponent) :
    SpellsDecimal negative d (d.digits ++ List.replicate d.exponent.toNat '0' ++ ['.', '0']) := by
  have hdigits := digits_digits d
  refine spellsDecimal_of_fraction (hdigits.append_zeros _) ?_ ⟨by simp, by simp⟩ ?_
  · by_cases hzero : d.coefficient = 0
    · exact .inl (by rw [Decimal.digits, hzero, hd hzero]; rfl)
    · rw [List.head?_append_of_ne_nil _ hdigits.ne_nil]
      exact .inr (head?_digits hzero)
  · have hcoefficient : Decimal.ofDigits
        (d.digits ++ List.replicate d.exponent.toNat '0' ++ ['0']) =
        d.coefficient * 10 ^ (d.exponent.toNat + 1) := by
      rw [List.append_assoc, ← List.replicate_succ', Decimal.ofDigits_append, ofDigits_digits,
        Decimal.ofDigits_zeros, List.length_replicate, Nat.add_zero, Nat.mul_comm]
    have hexponent : 0 - (['0'].length : Int) = d.exponent - (d.exponent.toNat + 1 : Nat) := by
      rw [List.length_singleton]
      omega
    rw [hcoefficient, hexponent, Decimal.normal_shift]

/-- The point stands between the digits. -/
theorem spellsDecimal_inside {k : Nat} (hk : k < d.digits.length) (hexp : d.exponent = -k)
    (hneg : d.exponent < 0) (hd : d.coefficient ≠ 0) :
    SpellsDecimal negative d
      (d.digits.take (d.digits.length - k) ++ '.' :: d.digits.drop (d.digits.length - k)) := by
  have hdigits := digits_digits d
  refine spellsDecimal_of_fraction ⟨?_, fun c hc => hdigits.isDigit c (List.mem_of_mem_take hc)⟩
    (.inr ?_) ⟨?_, fun c hc => hdigits.isDigit c (List.mem_of_mem_drop hc)⟩ ?_
  · rw [← List.length_pos_iff, List.length_take]
    omega
  · rw [List.head?_take, if_neg (by omega)]
    exact head?_digits hd
  · rw [← List.length_pos_iff, List.length_drop]
    omega
  · have hexponent : 0 - ((d.digits.length - (d.digits.length - k) : Nat) : Int) =
        d.exponent := by omega
    rw [List.take_append_drop, ofDigits_digits, List.length_drop, hexponent]

/-- The point stands before the digits, with zeros between. -/
theorem spellsDecimal_below {k : Nat} (hk : d.digits.length ≤ k) (hexp : d.exponent = -k) :
    SpellsDecimal negative d
      (['0'] ++ '.' :: (List.replicate (k - d.digits.length) '0' ++ d.digits)) := by
  have hzero : Digits ['0'] := ⟨by simp, by simp⟩
  have hcoefficient : Decimal.ofDigits
      (['0'] ++ (List.replicate (k - d.digits.length) '0' ++ d.digits)) = d.coefficient := by
    rw [← List.append_assoc, show ['0'] = List.replicate 1 '0' from rfl,
      List.replicate_append_replicate, Decimal.ofDigits_append, Decimal.ofDigits_zeros,
      ofDigits_digits, Nat.mul_zero, Nat.zero_add]
  have hexponent : 0 - ((k - d.digits.length + d.digits.length : Nat) : Int) = d.exponent := by
    omega
  refine spellsDecimal_of_fraction hzero (.inl rfl) ((digits_digits d).zeros_append _) ?_
  rw [hcoefficient, List.length_append, List.length_replicate, hexponent]

theorem spellsDecimal_positional (hd : d.coefficient = 0 → d.exponent = 0) :
    SpellsDecimal negative d (d.renderPositional true) := by
  unfold Decimal.renderPositional
  simp only
  split
  · exact spellsDecimal_whole hd ‹_›
  · have hexp : d.exponent = -(d.exponent.natAbs : Int) := by omega
    split
    · exact spellsDecimal_inside ‹_› hexp (by omega) fun hzero => absurd (hd hzero) (by omega)
    · exact spellsDecimal_below (Nat.not_lt.mp ‹_›) hexp

theorem spellsPower_leading (n : Int) :
    SpellsPower (some n)
      ('e' :: ((if n < 0 then ['-'] else ['+']) ++ Nat.toDigits 10 n.natAbs)) := by
  by_cases hneg : n < 0
  · have hn : n = -(Decimal.ofDigits (Nat.toDigits 10 n.natAbs) : Int) := by
      rw [Decimal.ofDigits_toDigits]
      omega
    have hpower : SpellsPower (some (-(Decimal.ofDigits (Nat.toDigits 10 n.natAbs) : Int)))
        ('e' :: '-' :: Nat.toDigits 10 n.natAbs) := .minus (by decide) (digits_toDigits _)
    rw [if_pos hneg]
    rwa [← hn] at hpower
  · have hn : n = (Decimal.ofDigits (Nat.toDigits 10 n.natAbs) : Int) := by
      rw [Decimal.ofDigits_toDigits]
      omega
    have hpower : SpellsPower (some (Decimal.ofDigits (Nat.toDigits 10 n.natAbs) : Int))
        ('e' :: '+' :: Nat.toDigits 10 n.natAbs) := .plus (by decide) (digits_toDigits _)
    rw [if_neg hneg]
    rwa [← hn] at hpower

/-- What follows the first digit is the fraction, if there is more. -/
theorem spellsFraction_of_digits {ds : List Char} (h : ∀ c ∈ ds, c.isDigit = true) :
    ∃ fraction?, SpellsFraction fraction? (if ds = [] then [] else '.' :: ds) ∧
      fraction?.getD [] = ds := by
  by_cases hnil : ds = []
  · rw [if_pos hnil, hnil]
    exact ⟨none, .absent, rfl⟩
  · rw [if_neg hnil]
    exact ⟨some ds, .digits ⟨hnil, h⟩, rfl⟩

/-- A numeral of one digit, or of one digit and a fraction, with a power of ten. -/
theorem spellsDecimal_scientific (hd : d.coefficient ≠ 0) :
    SpellsDecimal negative d (d.renderScientific true) := by
  have hdigits := digits_digits d
  obtain ⟨c, more, hcons⟩ := List.exists_cons_of_ne_nil hdigits.ne_nil
  have hrender : d.renderScientific true =
      [c] ++ ((if more = [] then [] else '.' :: more) ++
        ('e' :: ((if d.leading < 0 then ['-'] else ['+']) ++
          Nat.toDigits 10 d.leading.natAbs))) := by
    unfold Decimal.renderScientific
    rw [hcons]
    cases more <;> simp
  have hc : Digits [c] := ⟨by simp, by simpa using hdigits.isDigit c (by simp [hcons])⟩
  have hleading : [c].head? ≠ some '0' := by simpa [hcons] using head?_digits hd
  have hmore : ∀ x ∈ more, x.isDigit = true := fun x hx =>
    hdigits.isDigit x (by rw [hcons]; exact List.mem_cons_of_mem c hx)
  obtain ⟨fraction?, hfraction, hget⟩ := spellsFraction_of_digits hmore
  have hexponent : d.leading - more.length = d.exponent := by
    rw [Decimal.leading, hcons, List.length_cons]
    omega
  rw [hrender]
  refine spellsDecimal_of_parts hc (.inr hleading) hfraction (spellsPower_leading d.leading)
    (.inr (Option.some_ne_none _)) ?_
  rw [hget, List.singleton_append, ← hcons, ofDigits_digits, Option.getD_some, hexponent]

/-- A number that is not written as a whole one is spelled by what is written for it. -/
theorem spelled_decimal (hd : d.coefficient = 0 → d.exponent = 0) :
    ∃ m : Numeral, m.Spelled (renderDecimal negative d) ∧
      m.toJson = decimal negative d.normal := by
  obtain ⟨m, hnegative, hspelled, hvalue⟩ :
      SpellsDecimal negative d (d.render numeralStyle) := by
    change SpellsDecimal negative d (if (-5 : Int) ≤ d.leading ∧ d.leading ≤ 15
      then d.renderPositional true else d.renderScientific true)
    split
    · exact spellsDecimal_positional hd
    · rename_i hfar
      refine spellsDecimal_scientific fun hzero => hfar ?_
      rw [Decimal.leading, Decimal.digits, hzero, hd hzero]
      decide
  refine ⟨m, ⟨_, hspelled, ?_⟩, hvalue⟩
  rw [renderDecimal, hnegative]
  cases negative <;> rfl

end Decimals

/-! ### Strings -/

theorem hexCode?_hexPair : ∀ n < 0x20,
    hexCode? '0' '0' (Nat.digitChar (n / 16 % 16)) (Nat.digitChar (n % 16)) = some n := by
  decide

theorem joinUnits_char (c : Char) (units : List Unit16) :
    joinUnits (.char c :: units) = (joinUnits units).map (c :: ·) := by
  rw [joinUnits]
  cases joinUnits units <;> rfl

/-- The code of a control stands for itself and not for half a pair. -/
theorem joinUnits_control {n : Nat} (h : n < 0x20) (units : List Unit16) :
    joinUnits (.code n :: units) = (joinUnits units).map (Char.ofNat n :: ·) := by
  have hlead : isLead n = false := by
    have : ¬ 0xD800 ≤ n := by omega
    simp [isLead, this]
  have htrail : isTrail n = false := by
    have : ¬ 0xDC00 ≤ n := by omega
    simp [isTrail, this]
  have hjoin : joinUnits (.code n :: units) =
      (do return Char.ofNat n :: (← joinUnits units) : Option (List Char)) := by
    rcases units with _ | ⟨_ | m, units⟩ <;> simp [joinUnits, hlead, htrail]
  rw [hjoin]
  cases joinUnits units <;> rfl

/-- What stands for a character in a string spells one element, which is the character. -/
theorem exists_unit_of_escapeChar (c : Char) : ∃ unit : Unit16,
    (∀ {units t}, SpellsUnits units t → SpellsUnits (unit :: units) (escapeChar c ++ t)) ∧
      ∀ units, joinUnits (unit :: units) = (joinUnits units).map (c :: ·) := by
  have hletter : ∀ letter, escaped? letter = some c → escapeChar c = ['\\', letter] →
      ∃ unit : Unit16,
        (∀ {units t}, SpellsUnits units t → SpellsUnits (unit :: units) (escapeChar c ++ t)) ∧
          ∀ units, joinUnits (unit :: units) = (joinUnits units).map (c :: ·) := by
    intro letter hescaped hescape
    rw [hescape]
    exact ⟨.char c, .escape hescaped, joinUnits_char c⟩
  by_cases hquote : c = '"'
  · exact hletter '"' (by rw [hquote]; rfl) (by rw [hquote]; rfl)
  by_cases hbackslash : c = '\\'
  · exact hletter '\\' (by rw [hbackslash]; rfl) (by rw [hbackslash]; rfl)
  by_cases hnamed : c ∈ ['\x08', '\t', '\n', '\x0c', '\r']
  · simp only [List.mem_cons, List.not_mem_nil, or_false] at hnamed
    rcases hnamed with rfl | rfl | rfl | rfl | rfl
    · exact hletter 'b' rfl rfl
    · exact hletter 't' rfl rfl
    · exact hletter 'n' rfl rfl
    · exact hletter 'f' rfl rfl
    · exact hletter 'r' rfl rfl
  simp only [List.mem_cons, List.not_mem_nil, or_false, not_or] at hnamed
  obtain ⟨hb, ht, hn, hf, hr⟩ := hnamed
  by_cases hcontrol : c.toNat < 0x20
  · have hescape : escapeChar c = ['\\', 'u', '0', '0'] ++ hexPair c.toNat := by
      simp only [escapeChar, hquote, hbackslash, hb, ht, hn, hf, hr, hcontrol, if_false, if_true]
    rw [hescape]
    refine ⟨.code c.toNat, .code (hexCode?_hexPair _ hcontrol), fun units => ?_⟩
    rw [joinUnits_control hcontrol, Char.ofNat_toNat]
  · have hescape : escapeChar c = [c] := by
      simp only [escapeChar, hquote, hbackslash, hb, ht, hn, hf, hr, hcontrol, if_false]
    rw [hescape]
    exact ⟨.char c, .char (Nat.not_lt.mp hcontrol) hquote hbackslash, joinUnits_char c⟩

/-- **A written string spells its text**, whatever characters it has. -/
theorem spellsText_renderText (text : List Char) : SpellsText text (renderText text) := by
  suffices h : ∃ units, SpellsUnits units (text.flatMap escapeChar) ∧
      joinUnits units = some text by
    obtain ⟨units, hunits, hjoin⟩ := h
    exact ⟨units, _, hunits, hjoin, rfl⟩
  induction text with
  | nil => exact ⟨[], .nil, rfl⟩
  | cons c text ih =>
    obtain ⟨units, hunits, hjoin⟩ := ih
    obtain ⟨unit, hspells, hjoin'⟩ := exists_unit_of_escapeChar c
    refine ⟨unit :: units, ?_, ?_⟩
    · rw [List.flatMap_cons]
      exact hspells hunits
    · rw [hjoin', hjoin]
      rfl

/-! ### Values -/

mutual

/-- The value that is read back, whose coefficients have no zeros at their ends. -/
def normal : Json → Json
  | decimal negative d => decimal negative d.normal
  | list items => list (normalItems items)
  | object members => object (normalMembers members)
  | value => value

/-- The items that are read back. -/
def normalItems : List Json → List Json
  | [] => []
  | item :: items => normal item :: normalItems items

/-- The members that are read back. -/
def normalMembers : List (List Char × Json) → List (List Char × Json)
  | [] => []
  | (name, value) :: members => (name, normal value) :: normalMembers members

end

mutual

/-- No decimal in the value is a zero with a power of ten. -/
def Writable : Json → Prop
  | decimal _ d => d.coefficient = 0 → d.exponent = 0
  | list items => WritableItems items
  | object members => WritableMembers members
  | _ => True

/-- All items are writable. -/
def WritableItems : List Json → Prop
  | [] => True
  | item :: items => Writable item ∧ WritableItems items

/-- The values of all members are writable. -/
def WritableMembers : List (List Char × Json) → Prop
  | [] => True
  | (_, value) :: members => Writable value ∧ WritableMembers members

end

theorem blank_nil : Blank [] := fun _ h => nomatch h

theorem Layout.blank_gap (layout : Layout) (depth : Nat) : Blank (layout.gap depth) := by
  cases layout with
  | compact => exact blank_nil
  | pretty indent =>
    intro c hc
    rcases List.mem_cons.mp hc with rfl | hspace
    · rfl
    · rw [List.eq_of_mem_replicate hspace]
      rfl

/-- A colon between blanks. -/
theorem Layout.exists_colon (layout : Layout) : ∃ w, Blank w ∧ layout.colon = ':' :: w := by
  cases layout with
  | compact => exact ⟨[], blank_nil, rfl⟩
  | pretty => exact ⟨[' '], by simp [Blank, isBlank], rfl⟩

/-- A member is spelled if its value is. -/
theorem spellsMember_render (layout : Layout) (depth : Nat) (name : List Char) {value : Json}
    {t : List Char} (h : Spells value t) :
    SpellsMember name value (layout.gap depth ++ renderText name ++ layout.colon ++ t) := by
  obtain ⟨w, hw, hcolon⟩ := layout.exists_colon
  have hmember := SpellsMember.mk (layout.blank_gap depth) (spellsText_renderText name) blank_nil
    hw h
  rw [hcolon]
  simpa using hmember

mutual

/-- **What is written for a value spells it**, in every layout and at every depth. -/
theorem spells_writeAt (layout : Layout) (depth : Nat) : ∀ value : Json, value.Writable →
    ∃ t, Spells value.normal t ∧ ∀ tail, writeAt layout depth value tail = t ++ tail
  | null, _ => ⟨_, .null, fun _ => rfl⟩
  | boolean true, _ => ⟨_, .true, fun _ => rfl⟩
  | boolean false, _ => ⟨_, .false, fun _ => rfl⟩
  | integer n, _ => by
    obtain ⟨m, hm, hvalue⟩ := spelled_integer n
    have hspells : Spells (integer n) (renderInteger n) := hvalue ▸ .number hm
    exact ⟨_, hspells, fun _ => rfl⟩
  | decimal negative d, h => by
    obtain ⟨m, hm, hvalue⟩ :
        ∃ m : Numeral, m.Spelled (renderDecimal negative d) ∧
          m.toJson = decimal negative d.normal := spelled_decimal h
    have hspells : Spells (decimal negative d.normal) (renderDecimal negative d) :=
      hvalue ▸ .number hm
    exact ⟨_, hspells, fun _ => rfl⟩
  | text chars, _ => ⟨renderText chars, .text (spellsText_renderText chars), fun _ => rfl⟩
  | list [], _ => ⟨_, .emptyList blank_nil, fun _ => rfl⟩
  | list (item :: items), h => by
    obtain ⟨t, ht, hwrite⟩ := spells_writeItems layout depth item items h
    exact ⟨'[' :: t, .list ht, fun tail => congrArg ('[' :: ·) (hwrite tail)⟩
  | object [], _ => ⟨_, .emptyObject blank_nil, fun _ => rfl⟩
  | object ((name, value) :: members), h => by
    obtain ⟨t, ht, hwrite⟩ := spells_writeMembers layout depth name value members h
    exact ⟨'\x7b' :: t, .object ht, fun tail => congrArg ('\x7b' :: ·) (hwrite tail)⟩
termination_by value => sizeOf value

/-- What is written between the brackets of a list spells its items. -/
theorem spells_writeItems (layout : Layout) (depth : Nat) : ∀ (item : Json) (items : List Json),
    WritableItems (item :: items) → ∃ t, SpellsItems (normalItems (item :: items)) t ∧
      ∀ tail, layout.gap (depth + 1) ++ writeAt layout (depth + 1) item
        (writeItems layout (depth + 1) items (layout.gap depth ++ ']' :: tail)) = t ++ tail
  | item, [], h => by
    obtain ⟨t, ht, hwrite⟩ := spells_writeAt layout (depth + 1) item h.1
    refine ⟨_, .last (layout.blank_gap (depth + 1)) ht (layout.blank_gap depth), fun tail => ?_⟩
    rw [hwrite, writeItems]
    simp
  | item, next :: items, h => by
    obtain ⟨t, ht, hwrite⟩ := spells_writeAt layout (depth + 1) item h.1
    obtain ⟨ts, hts, hwrites⟩ := spells_writeItems layout depth next items h.2
    refine ⟨_, .more (layout.blank_gap (depth + 1)) ht blank_nil hts, fun tail => ?_⟩
    rw [hwrite, writeItems, hwrites]
    simp
termination_by item items => 1 + sizeOf item + sizeOf items

/-- What is written between the braces of an object spells its members. -/
theorem spells_writeMembers (layout : Layout) (depth : Nat) (name : List Char) :
    ∀ (value : Json) (members : List (List Char × Json)),
      WritableMembers ((name, value) :: members) →
      ∃ t, SpellsMembers (normalMembers ((name, value) :: members)) t ∧
        ∀ tail, layout.gap (depth + 1) ++ renderText name ++ layout.colon ++
          writeAt layout (depth + 1) value
            (writeMembers layout (depth + 1) members (layout.gap depth ++ '\x7d' :: tail)) =
          t ++ tail
  | value, [], h => by
    obtain ⟨t, ht, hwrite⟩ := spells_writeAt layout (depth + 1) value h.1
    refine ⟨_, .last (spellsMember_render layout (depth + 1) name ht) (layout.blank_gap depth),
      fun tail => ?_⟩
    rw [hwrite, writeMembers]
    simp
  | value, (next, nextValue) :: members, h => by
    obtain ⟨t, ht, hwrite⟩ := spells_writeAt layout (depth + 1) value h.1
    obtain ⟨ts, hts, hwrites⟩ := spells_writeMembers layout depth next nextValue members h.2
    refine ⟨_, .more (spellsMember_render layout (depth + 1) name ht) blank_nil hts,
      fun tail => ?_⟩
    rw [hwrite, writeMembers, hwrites]
    simp
termination_by value members => 1 + sizeOf value + sizeOf members

end

/-- The text of a value is a JSON text of it. -/
theorem isTextOf_render (layout : Layout) {value : Json} (h : value.Writable) :
    IsTextOf value.normal (value.render layout) := by
  obtain ⟨t, ht, hwrite⟩ := spells_writeAt layout 0 value h
  exact ⟨[], t, [], blank_nil, ht, blank_nil, by rw [render, hwrite]; simp⟩

end Json

/-! ### Documents -/

namespace Document

theorem writable_realToJson (x : Binary64) : (realToJson x).Writable := by
  cases x with
  | nan => trivial
  | infinite => trivial
  | finite negative e f =>
    intro hzero
    by_cases hsignificand : Binary64.significand e f = 0
    · rw [Binary64.shortest, if_pos hsignificand]
    · exact absurd hzero (Nat.ne_of_gt (Binary64.shortest_pos _ hsignificand))

mutual

theorem writable_toJson : ∀ document : Document, document.toJson.Writable
  | null | boolean _ | integer _ | text _ => trivial
  | real x => writable_realToJson x
  | list items => writable_toJsonItems items
  | record members => writable_toJsonMembers members

theorem writable_toJsonItems : ∀ items : List Document, Json.WritableItems (toJsonItems items)
  | [] => trivial
  | item :: items => ⟨writable_toJson item, writable_toJsonItems items⟩

theorem writable_toJsonMembers :
    ∀ members : List (String × Document), Json.WritableMembers (toJsonMembers members)
  | [] => trivial
  | (_, value) :: members => ⟨writable_toJson value, writable_toJsonMembers members⟩

end

/-- **Every document is written as a JSON text**, which spells one value in all layouts. -/
theorem isTextOf_jsonText (document : Document) (layout : Json.Layout) :
    Json.IsTextOf document.toJson.normal (document.jsonText layout).toList := by
  rw [jsonText, String.toList_ofList]
  exact Json.isTextOf_render layout (writable_toJson document)

end Document
end OpenScad
