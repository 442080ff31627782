/-
# Positions read from objects

An object whose members for the coordinates are numerals gives a position if and
only if there is one numeral for each coordinate, and each, as a floating-point
number, is whole and not below the least value of its coordinate; what is beyond
a word is cut to the greatest word. So a whole number in the text is not always
the coordinate: it is first rounded to 53 bits. The position that is written is
read back if and only if its coordinates have 53 bits, not counting zeros, or
are the greatest word (`Position.ofJson_rounds`).

Not covered: positions read from lists, and which error refuses an object.

Key definitions: `Axis.Takes`, `Json.Numeral.Gives`, `Position.stored`, `Position.kept`.
Key theorems: `Position.ofJson_eq_ok_iff`, `Position.gives_iff_of_short`,
`Position.stored_eq_iff`, `Position.ofJson_rounds`.
-/
import OpenScad.Json.Decode
import OpenScad.Proofs.Json.Members
import OpenScad.Proofs.Json.Quantity
import OpenScad.Proofs.Json.Writing

namespace OpenScad

/-! ### Numbers in slots -/

namespace Json

theorem ofQuantity_real (quantity : Quantity) :
    Want.real.ofQuantity quantity = .ok (.real quantity.toBinary64) := by
  cases quantity <;> rfl

theorem ofToken_real_eq_ok_iff {n : Numeral} {content : Content} :
    Want.real.ofToken (.number n) = .ok content ↔
      ∃ quantity, n.toQuantity? = some quantity ∧ content = .real quantity.toBinary64 := by
  cases hquantity : n.toQuantity? with
  | none => simp [Want.ofToken, hquantity]
  | some quantity => simp [Want.ofToken, hquantity, ofQuantity_real, eq_comm]

end Json

/-! ### Coordinates -/

/-- The coordinate of a position on an axis. -/
def Position.along (p : Position) : Axis → Nat
  | .line => p.line
  | .column => p.column
  | .offset => p.offset

/-- The number is whole and not below the least coordinate, and the coordinate is the whole
number, or the greatest word if that is less. -/
def Axis.Takes (axis : Axis) (x : Binary64) (coordinate : Nat) : Prop :=
  ∃ n : Int, x.toInt? = some n ∧ (axis.least : Int) ≤ n ∧
    coordinate = min n.toNat (wordLimit - 1)

/-- The numeral becomes a number that the axis takes as the coordinate. -/
def Json.Numeral.Gives (n : Numeral) (axis : Axis) (coordinate : Nat) : Prop :=
  ∃ quantity, n.toQuantity? = some quantity ∧ axis.Takes quantity.toBinary64 coordinate

namespace Position

theorem coordinate_eq_ok_iff {axis : Axis} {x : Binary64} {k : Nat} :
    coordinate axis x = .ok k ↔ axis.Takes x k := by
  unfold coordinate Axis.Takes
  cases x.toInt? with
  | none => simp
  | some n =>
    by_cases hle : (axis.least : Int) ≤ n
    · simp [hle, eq_comm]
    · simp [hle]

theorem least_le_of_takes {axis : Axis} {x : Binary64} {k : Nat} (h : axis.Takes x k) :
    axis.least ≤ k := by
  obtain ⟨n, -, hle, rfl⟩ := h
  have hleast : axis.least ≤ wordLimit - 1 := by cases axis <;> decide
  omega

theorem valid_iff_least_le {p : Position} : p.Valid ↔ ∀ axis : Axis, axis.least ≤ p.along axis := by
  constructor
  · intro h axis
    cases axis with
    | line => exact h.one_le_line
    | column => exact h.one_le_column
    | offset => exact Nat.zero_le _
  · exact fun h => ⟨h .line, h .column⟩

theorem ofNumbers_eq_ok_iff {line column offset : Binary64} {p : Position} :
    ofNumbers line column offset = .ok p ↔
      Axis.line.Takes line p.line ∧ Axis.column.Takes column p.column ∧
        Axis.offset.Takes offset p.offset := by
  simp only [← coordinate_eq_ok_iff]
  constructor
  · intro h
    obtain ⟨l, hl, h⟩ := exists_of_bind_eq_ok h
    obtain ⟨c, hc, h⟩ := exists_of_bind_eq_ok h
    obtain ⟨o, ho, h⟩ := exists_of_bind_eq_ok h
    obtain ⟨-, hline, hcolumn, hoffset⟩ := ofCoordinates_eq_ok h
    exact ⟨hline ▸ hl, hcolumn ▸ hc, hoffset ▸ ho⟩
  · rintro ⟨hline, hcolumn, hoffset⟩
    have hvalid : p.Valid :=
      ⟨least_le_of_takes (coordinate_eq_ok_iff.mp hline),
        least_le_of_takes (coordinate_eq_ok_iff.mp hcolumn)⟩
    rw [ofNumbers, hline, hcolumn, hoffset]
    exact ofCoordinates_self hvalid

/-! ### Objects -/

section Objects

open Json

variable {members : List (List Char × Option Numeral)} {input : List Char}

/-- What a filled record gives as a position. -/
def ofContents (contents : Contents) : Except RecordError Position :=
  (ofNumbers (number contents "line") (number contents "column")
    (number contents "offset")).mapError .refused

theorem ofJson_eq_decode (input : List Char) : ofJson input = decode shape ofContents input := rfl

theorem ofContents_eq_ok_iff {contents : Contents} {p : Position} :
    ofContents contents = .ok p ↔ ∀ axis : Axis,
      axis.Takes (number contents axis.name) (p.along axis) := by
  have hnumbers : ofContents contents = .ok p ↔ ofNumbers (number contents "line")
      (number contents "column") (number contents "offset") = .ok p := by
    unfold ofContents
    cases ofNumbers (number contents "line") (number contents "column")
      (number contents "offset") <;> simp [Except.mapError]
  rw [hnumbers, ofNumbers_eq_ok_iff]
  constructor
  · rintro ⟨hline, hcolumn, hoffset⟩ axis
    cases axis with
    | line => exact hline
    | column => exact hcolumn
    | offset => exact hoffset
  · exact fun h => ⟨h .line, h .column, h .offset⟩

/-- Every slot is that of a coordinate and takes any number. -/
theorem exists_axis_of_mem_slots {slot : Slot} (h : slot ∈ shape.slots) :
    slot.want = .real ∧ ∃ axis : Axis, slot.name = axis.name := by
  simp only [shape, List.mem_cons, List.not_mem_nil, or_false] at h
  rcases h with rfl | rfl | rfl
  · exact ⟨rfl, .line, rfl⟩
  · exact ⟨rfl, .column, rfl⟩
  · exact ⟨rfl, .offset, rfl⟩

theorem exists_slot (axis : Axis) :
    ∃ slot ∈ shape.slots, slot.name = axis.name ∧ slot.want = .real := by
  cases axis <;> simp [shape, Axis.name]

/-- The number of a coordinate is that of the one numeral for it. -/
theorem exists_numeral_of_fill {contents : Contents}
    (h : shape.fill [] (shape.fillings members) = .ok contents) (axis : Axis) :
    ∃ (n : Numeral) (quantity : Quantity), shape.numeralsIn axis.name members = [n] ∧
      n.toQuantity? = some quantity ∧ number contents axis.name = quantity.toBinary64 := by
  rcases Shape.lookup_of_fill h axis.name with
    ⟨-, hlookup⟩ | ⟨-, filling, hmem, content, -, hnumerals, hcontent, hlookup⟩
  · obtain ⟨slot, hslot, hname, hwant⟩ := exists_slot axis
    have hfilled := Shape.lookup_isSome_of_fill h hslot (by simp [hwant])
    rw [hname, hlookup] at hfilled
    cases hfilled
  · obtain ⟨hwant, -⟩ := exists_axis_of_mem_slots (Shape.mem_slots_of_mem_fillings hmem)
    rw [hwant] at hcontent
    obtain ⟨quantity, hquantity, rfl⟩ := ofToken_real_eq_ok_iff.mp hcontent
    exact ⟨filling.2, quantity, hnumerals, hquantity, by rw [number, hlookup]⟩

theorem exists_fill_of_numerals
    (h : ∀ axis : Axis, ∃ (n : Numeral) (quantity : Quantity),
      shape.numeralsIn axis.name members = [n] ∧ n.toQuantity? = some quantity) :
    ∃ contents, shape.fill [] (shape.fillings members) = .ok contents := by
  have honly : ∀ filling ∈ shape.fillings members,
      numeralsOf filling.1.name (shape.fillings members) = [filling.2] ∧
        ∃ quantity, filling.2.toQuantity? = some quantity := by
    intro filling hmem
    obtain ⟨-, axis, hname⟩ := exists_axis_of_mem_slots (Shape.mem_slots_of_mem_fillings hmem)
    obtain ⟨n, quantity, hnumerals, hquantity⟩ := h axis
    have hself := mem_numeralsOf_iff.mpr ⟨filling, hmem, hname, rfl⟩
    rw [Shape.numeralsIn] at hnumerals
    rw [hnumerals, List.mem_singleton] at hself
    rw [hname, hnumerals, hself]
    exact ⟨rfl, quantity, hquantity⟩
  refine Shape.exists_fill (fun _ _ => rfl) (fun filling hmem => (honly filling hmem).1)
    (fun filling hmem => ?_) fun slot hslot => .inr ?_
  · obtain ⟨hwant, -⟩ := exists_axis_of_mem_slots (Shape.mem_slots_of_mem_fillings hmem)
    obtain ⟨-, quantity, hquantity⟩ := honly filling hmem
    rw [hwant]
    exact ⟨_, ofToken_real_eq_ok_iff.mpr ⟨quantity, hquantity, rfl⟩⟩
  · obtain ⟨-, axis, hname⟩ := exists_axis_of_mem_slots hslot
    obtain ⟨n, -, hnumerals, -⟩ := h axis
    have hmem : n ∈ numeralsOf axis.name (shape.fillings members) := by
      rw [Shape.numeralsIn] at hnumerals
      rw [hnumerals]
      exact List.mem_singleton_self n
    obtain ⟨filling, hfilling, hfillingName, -⟩ := mem_numeralsOf_iff.mp hmem
    exact ⟨filling, hfilling, hfillingName.trans hname.symm⟩

/-- **An object gives a position if and only if each coordinate has one numeral**, which gives
that coordinate of it. -/
theorem ofJson_eq_ok_iff (h : IsObjectOf members input) (hnumeric : shape.Numeric members)
    {p : Position} :
    ofJson input = .ok p ↔ ∀ axis : Axis, ∃ n : Numeral,
      shape.numeralsIn axis.name members = [n] ∧ n.Gives axis (p.along axis) := by
  rw [ofJson_eq_decode, decode_object h hnumeric]
  constructor
  · intro hread axis
    obtain ⟨contents, hfill, hbuild⟩ := exists_of_bind_eq_ok hread
    obtain ⟨n, quantity, hnumerals, hquantity, hnumber⟩ := exists_numeral_of_fill hfill axis
    have htakes := ofContents_eq_ok_iff.mp hbuild axis
    rw [hnumber] at htakes
    exact ⟨n, hnumerals, quantity, hquantity, htakes⟩
  · intro hall
    have hfilled : ∀ axis : Axis, ∃ (n : Numeral) (quantity : Quantity),
        shape.numeralsIn axis.name members = [n] ∧ n.toQuantity? = some quantity := by
      intro axis
      obtain ⟨n, hnumerals, quantity, hquantity, -⟩ := hall axis
      exact ⟨n, quantity, hnumerals, hquantity⟩
    obtain ⟨contents, hfill⟩ := exists_fill_of_numerals hfilled
    rw [hfill]
    refine ofContents_eq_ok_iff.mpr fun axis => ?_
    obtain ⟨n, hnumerals, quantity, hquantity, htakes⟩ := hall axis
    obtain ⟨n', quantity', hnumerals', hquantity', hnumber⟩ := exists_numeral_of_fill hfill axis
    obtain rfl : n = n' := List.singleton_inj.mp (hnumerals.symm.trans hnumerals')
    obtain rfl : quantity = quantity' := Option.some.inj (hquantity.symm.trans hquantity')
    rw [hnumber]
    exact htakes

end Objects

/-! ### Short numerals -/

/-- The coordinate that is read for a whole number: its rounding to 53 bits, or the greatest word
if that is less. -/
def stored (n : Nat) : Nat := min (Binary64.rounded n) (wordLimit - 1)

/-- **A whole number is stored as it is** if and only if it is a word of 53 bits, not counting
zeros, or the greatest word. -/
theorem stored_eq_iff {n : Nat} :
    stored n = n ↔ n < 2 ^ 64 ∧ (Binary64.lastUnit n ∣ n ∨ n = 2 ^ 64 - 1) := by
  constructor
  · intro h
    have hlt : n < 2 ^ 64 := by
      have hlimit : wordLimit = 2 ^ 64 := rfl
      unfold stored at h
      omega
    exact ⟨hlt, (Binary64.min_rounded_eq_iff hlt).mp h⟩
  · rintro ⟨hlt, hexact⟩
    exact (Binary64.min_rounded_eq_iff hlt).mpr hexact

theorem least_le_roundedInt_iff (axis : Axis) (k : Int) :
    (axis.least : Int) ≤ Binary64.roundedInt k ↔ (axis.least : Int) ≤ k := by
  have hleast : axis.least ≤ 1 := by cases axis <;> decide
  have hpos : 0 < k.natAbs → 0 < Binary64.rounded k.natAbs := Binary64.rounded_pos
  have hzero : k.natAbs = 0 → Binary64.rounded k.natAbs = 0 := by
    intro hzero
    rw [hzero]
    exact Binary64.rounded_of_lt (by decide)
  unfold Binary64.roundedInt
  split <;> omega

/-- **A short numeral gives the whole number that it denotes**, rounded, if that is not below the
least coordinate, and nothing otherwise. -/
theorem gives_iff_of_short {n : Json.Numeral} (h : n.Short) (axis : Axis) (coordinate : Nat) :
    n.Gives axis coordinate ↔
      ∃ k, n.Denotes k ∧ (axis.least : Int) ≤ k ∧ coordinate = stored k.toNat := by
  obtain ⟨quantity, hquantity, hwhole⟩ := n.exists_quantity_of_short h
  have hgives : n.Gives axis coordinate ↔ axis.Takes quantity.toBinary64 coordinate := by
    rw [Json.Numeral.Gives, hquantity]
    simp
  have hcut : ∀ k : Int, 0 ≤ k →
      min (Binary64.roundedInt k).toNat (wordLimit - 1) = stored k.toNat := by
    intro k hk
    have habs : k.natAbs = k.toNat := by omega
    rw [Binary64.roundedInt, if_neg (Int.not_lt.mpr hk), habs, Int.toNat_natCast]
    rfl
  have hnonnegative : (0 : Int) ≤ axis.least := Int.natCast_nonneg _
  rw [hgives, Axis.Takes]
  constructor
  · rintro ⟨m, hm, hle, rfl⟩
    obtain ⟨k, hk, rfl⟩ := (hwhole m).mp hm
    have hlek := (least_le_roundedInt_iff axis k).mp hle
    exact ⟨k, hk, hlek, hcut k (Int.le_trans hnonnegative hlek)⟩
  · rintro ⟨k, hk, hle, rfl⟩
    exact ⟨_, (hwhole _).mpr ⟨k, hk, rfl⟩, (least_le_roundedInt_iff axis k).mpr hle,
      (hcut k (Int.le_trans hnonnegative hle)).symm⟩

section Short

open Json

variable {members : List (List Char × Option Numeral)} {input : List Char} {p : Position}
  {numeral : Axis → Numeral}

theorem ofJson_eq_ok_iff_of_short (h : IsObjectOf members input)
    (hnumeric : shape.Numeric members)
    (hnumerals : ∀ axis, shape.numeralsIn axis.name members = [numeral axis])
    (hshort : ∀ axis, (numeral axis).Short) :
    ofJson input = .ok p ↔ ∀ axis, ∃ k, (numeral axis).Denotes k ∧ (axis.least : Int) ≤ k ∧
      p.along axis = stored k.toNat := by
  rw [ofJson_eq_ok_iff h hnumeric]
  refine forall_congr' fun axis => ?_
  rw [← gives_iff_of_short (hshort axis) axis, hnumerals axis]
  simp

/-- If the numerals are the coordinates of a position, the position is read if and only if it is
valid and all of them are stored as they are. -/
theorem ofJson_eq_ok_iff_of_denotes (h : IsObjectOf members input)
    (hnumeric : shape.Numeric members)
    (hnumerals : ∀ axis, shape.numeralsIn axis.name members = [numeral axis])
    (hshort : ∀ axis, (numeral axis).Short)
    (hdenotes : ∀ axis, (numeral axis).Denotes (p.along axis)) :
    ofJson input = .ok p ↔ p.Valid ∧ ∀ axis, stored (p.along axis) = p.along axis := by
  rw [ofJson_eq_ok_iff_of_short h hnumeric hnumerals hshort, valid_iff_least_le, ← forall_and]
  refine forall_congr' fun axis => ⟨?_, ?_⟩
  · rintro ⟨k, hk, hle, hstored⟩
    rw [hk.unique (hdenotes axis)] at hle hstored
    exact ⟨Int.ofNat_le.mp hle, hstored.symm⟩
  · rintro ⟨hle, hstored⟩
    exact ⟨p.along axis, hdenotes axis, Int.ofNat_le.mpr hle, hstored.symm⟩

end Short

/-! ### Written positions -/

open Json in
/-- In a text that is written for a position stands one whole number for each coordinate. -/
theorem exists_members_of_text (p : Position) (layout : Layout) :
    ∃ members, ∃ numeral : Axis → Numeral,
      IsObjectOf members ((Document.ofPosition p).jsonText layout).toList ∧
        shape.Numeric members ∧ ∀ axis, shape.numeralsIn axis.name members = [numeral axis] ∧
          (numeral axis).toJson = .integer (p.along axis) := by
  obtain ⟨members, hobject, hall⟩ :=
    exists_isObjectOf ((Document.ofPosition p).isTextOf_jsonText layout)
  obtain _ | @⟨⟨name, other⟩, _, _, _, ⟨hname, -⟩, hall⟩ := hall
  obtain _ | @⟨⟨line, numeral⟩, _, _, _, ⟨hline, hlineNumeral⟩, hall⟩ := hall
  obtain _ | @⟨⟨column, numeral'⟩, _, _, _, ⟨hcolumn, hcolumnNumeral⟩, hall⟩ := hall
  obtain _ | @⟨⟨offset, numeral''⟩, _, _, _, ⟨hoffset, hoffsetNumeral⟩, hall⟩ := hall
  cases hall
  obtain ⟨a, rfl, ha⟩ : ∃ n : Numeral, numeral = some n ∧ n.toJson = .integer p.line :=
    hlineNumeral _ rfl
  obtain ⟨b, rfl, hb⟩ : ∃ n : Numeral, numeral' = some n ∧ n.toJson = .integer p.column :=
    hcolumnNumeral _ rfl
  obtain ⟨c, rfl, hc⟩ : ∃ n : Numeral, numeral'' = some n ∧ n.toJson = .integer p.offset :=
    hoffsetNumeral _ rfl
  simp only at hname hline hcolumn hoffset
  subst hname hline hcolumn hoffset
  refine ⟨_, fun | .line => a | .column => b | .offset => c, hobject, ?_, ?_⟩
  · intro member hmem hslot
    simp only [List.mem_cons, List.not_mem_nil, or_false] at hmem
    rcases hmem with rfl | rfl | rfl | rfl
    · cases hslot
    · rfl
    · rfl
    · rfl
  · intro axis
    cases axis with
    | line => exact ⟨rfl, ha⟩
    | column => exact ⟨rfl, hb⟩
    | offset => exact ⟨rfl, hc⟩

theorem along_inj {p q : Position} (h : ∀ axis, p.along axis = q.along axis) : p = q := by
  cases p
  cases q
  cases h .line
  cases h .column
  cases h .offset
  rfl

/-- What is read where the position is written. -/
def kept (p : Position) : Position where
  line := stored p.line
  column := stored p.column
  offset := stored p.offset

theorem along_kept (p : Position) (axis : Axis) : p.kept.along axis = stored (p.along axis) := by
  cases axis <;> rfl

theorem ofJson_jsonText {p : Position} (hvalid : p.Valid) (h : ∀ axis, p.along axis < 2 ^ 64)
    (layout : Json.Layout) :
    ofJson ((Document.ofPosition p).jsonText layout).toList = .ok p.kept := by
  obtain ⟨members, numeral, hobject, hnumeric, hnumerals⟩ := p.exists_members_of_text layout
  refine (ofJson_eq_ok_iff_of_short hobject hnumeric (fun axis => (hnumerals axis).1)
    fun axis => Json.Numeral.short_of_toJson (hnumerals axis).2 (h axis)).mpr fun axis => ?_
  obtain ⟨-, -, hdenotes, -⟩ := Json.Numeral.denotes_of_toJson (hnumerals axis).2
  exact ⟨_, hdenotes, Int.ofNat_le.mpr (valid_iff_least_le.mp hvalid axis), p.along_kept axis⟩

/-- A written position is read back if and only if its coordinates are stored as they are. -/
theorem ofJson_jsonText_eq_iff {p : Position} (hvalid : p.Valid)
    (h : ∀ axis, p.along axis < 2 ^ 64) (layout : Json.Layout) :
    ofJson ((Document.ofPosition p).jsonText layout).toList = .ok p ↔
      ∀ axis, stored (p.along axis) = p.along axis := by
  rw [ofJson_jsonText hvalid h layout, Except.ok.injEq]
  simp only [← along_kept]
  constructor
  · intro hkept axis
    rw [hkept]
  · exact along_inj

/-- **A position is read up to rounding.** An object whose members for the coordinates are
numerals, in any order and among other members, gives a position if and only if there is one
numeral for each coordinate and each gives the coordinate. If the numerals are short, each gives
the whole number that it denotes, rounded to 53 bits and cut to the greatest word, if that is not
below the least coordinate, and nothing otherwise; so the position with exactly these coordinates
is given if and only if it is valid and each is a word of 53 bits, not counting zeros, or the
greatest word. The text that is written for a valid position of words is read as the position with
rounded coordinates, and so read back under the same condition. -/
theorem ofJson_rounds {members : List (List Char × Option Json.Numeral)} {input : List Char}
    (h : Json.IsObjectOf members input) (hnumeric : shape.Numeric members) (p : Position) :
    (ofJson input = .ok p ↔ ∀ axis : Axis, ∃ n : Json.Numeral,
      shape.numeralsIn axis.name members = [n] ∧ n.Gives axis (p.along axis)) ∧
    (∀ numeral : Axis → Json.Numeral,
      (∀ axis, shape.numeralsIn axis.name members = [numeral axis]) →
      (∀ axis, (numeral axis).Short) →
      (ofJson input = .ok p ↔ ∀ axis, ∃ k, (numeral axis).Denotes k ∧ (axis.least : Int) ≤ k ∧
        p.along axis = stored k.toNat) ∧
      ((∀ axis, (numeral axis).Denotes (p.along axis)) →
        (ofJson input = .ok p ↔ p.Valid ∧ ∀ axis, p.along axis < 2 ^ 64 ∧
          (Binary64.lastUnit (p.along axis) ∣ p.along axis ∨ p.along axis = 2 ^ 64 - 1)))) ∧
    (p.Valid → (∀ axis, p.along axis < 2 ^ 64) → ∀ layout,
      ofJson ((Document.ofPosition p).jsonText layout).toList = .ok p.kept ∧
      (ofJson ((Document.ofPosition p).jsonText layout).toList = .ok p ↔ ∀ axis,
        Binary64.lastUnit (p.along axis) ∣ p.along axis ∨ p.along axis = 2 ^ 64 - 1)) := by
  refine ⟨ofJson_eq_ok_iff h hnumeric, fun numeral hnumerals hshort => ⟨?_, fun hdenotes => ?_⟩,
    fun hvalid hword layout => ⟨ofJson_jsonText hvalid hword layout, ?_⟩⟩
  · exact ofJson_eq_ok_iff_of_short h hnumeric hnumerals hshort
  · rw [ofJson_eq_ok_iff_of_denotes h hnumeric hnumerals hshort hdenotes]
    exact and_congr_right' (forall_congr' fun _ => stored_eq_iff)
  · rw [ofJson_jsonText_eq_iff hvalid hword layout]
    exact forall_congr' fun axis => stored_eq_iff.trans (and_iff_right (hword axis))

/-- An object with one numeral of each form, and the text of the position that it gives. -/
theorem ofJson_rounds_sample :
    let one : Json.Numeral :=
      { negative := false, whole := ['1'], fraction := none, exponent := none }
    let two : Json.Numeral :=
      { negative := false, whole := ['2'], fraction := none, exponent := some 0 }
    let three : Json.Numeral :=
      { negative := false, whole := ['3'], fraction := some ['0'], exponent := none }
    let members :=
      [("line".toList, some one), ("col".toList, some two), ("offset".toList, some three)]
    let input := "\x7b\"line\":1,\"col\":2e0,\"offset\":3.0\x7d".toList
    let numeral : Axis → Json.Numeral := fun | .line => one | .column => two | .offset => three
    let p : Position := { line := 1, column := 2, offset := 3 }
    Json.IsObjectOf members input ∧ shape.Numeric members ∧
      (∀ axis, shape.numeralsIn axis.name members = [numeral axis]) ∧
      (∀ axis, (numeral axis).Short) ∧ (∀ axis, (numeral axis).Denotes (p.along axis)) ∧
      (∀ axis, p.along axis < 2 ^ 64) ∧ ofJson input = .ok p ∧
      ofJson ((Document.ofPosition p).jsonText .compact).toList = .ok p := by
  intro one two three members input numeral p
  have hdigit : ∀ c : Char, c.isDigit = true → Json.Digits [c] := fun c hc =>
    ⟨by simp, by simpa using hc⟩
  have hone : one.Spelled ['1'] :=
    ⟨_, ⟨hdigit _ rfl, .inr (by decide), _, _, .absent, .absent, rfl⟩, rfl⟩
  have htwo : two.Spelled ['2', 'e', '0'] :=
    ⟨_, ⟨hdigit _ rfl, .inr (by decide), _, _, .absent, .plain (by decide) (hdigit '0' rfl), rfl⟩,
      rfl⟩
  have hthree : three.Spelled ['3', '.', '0'] :=
    ⟨_, ⟨hdigit _ rfl, .inr (by decide), _, _, .digits (hdigit '0' rfl), .absent, rfl⟩, rfl⟩
  have hmember : ∀ (name : List Char) {n : Json.Numeral} {t : List Char}, n.Spelled t →
      Json.WritesMember name (some n) (Json.renderText name ++ ':' :: t) := fun name _ _ h =>
    .mk Json.blank_nil (Json.spellsText_renderText name) Json.blank_nil Json.blank_nil (.numeral h)
  have hobject : Json.IsObjectOf members input :=
    ⟨[], _, [], Json.blank_nil,
      .more (hmember _ hone) Json.blank_nil
        (.more (hmember _ htwo) Json.blank_nil (.last (hmember _ hthree) Json.blank_nil)),
      Json.blank_nil, by decide⟩
  have hnumeric : shape.Numeric members := by
    intro member hmem _
    simp only [members, List.mem_cons, List.not_mem_nil, or_false] at hmem
    rcases hmem with rfl | rfl | rfl <;> rfl
  have hnumerals : ∀ axis, shape.numeralsIn axis.name members = [numeral axis] := by
    intro axis
    cases axis <;> rfl
  have hshort : ∀ axis, (numeral axis).Short := by
    intro axis
    cases axis <;> exact .few (by decide) (by decide) (by decide)
  have hdenotes : ∀ axis, (numeral axis).Denotes (p.along axis) := by
    intro axis
    cases axis with
    | line => exact ⟨1, by decide, rfl⟩
    | column => exact ⟨2, by decide, rfl⟩
    | offset => exact ⟨3, by decide, rfl⟩
  have hword : ∀ axis, p.along axis < 2 ^ 64 := by
    intro axis
    cases axis <;> decide
  have hvalid : p.Valid := by decide
  have hexact : ∀ axis, Binary64.lastUnit (p.along axis) ∣ p.along axis := by
    intro axis
    cases axis <;> decide
  obtain ⟨-, hobjects, htexts⟩ := ofJson_rounds hobject hnumeric p
  refine ⟨hobject, hnumeric, hnumerals, hshort, hdenotes, hword, ?_, ?_⟩
  · exact ((hobjects numeral hnumerals hshort).2 hdenotes).mpr
      ⟨hvalid, fun axis => ⟨hword axis, .inl (hexact axis)⟩⟩
  · exact (htexts hvalid hword .compact).2.mpr fun axis => .inl (hexact axis)

/-- The first whole number that has no form of its own is read as its even neighbour. -/
theorem ofJson_odd_line :
    let p : Position := { line := 2 ^ 53 + 1, column := 1, offset := 0 }
    let q : Position := { line := 2 ^ 53, column := 1, offset := 0 }
    ofJson ((Document.ofPosition p).jsonText .compact).toList = .ok q ∧ q ≠ p := by
  decide +kernel

end Position
end OpenScad
