/-
# The number at the front of a text

A text gives a number if and only if it begins, behind leading white space, with
an optional sign and then "Infinity", a digit, or a point and a digit
(`Binary64.ofFront_eq_nan_iff`). The number is the one that the longest front of
that form spells, and the parser of whole numerals reads that front as the same
number, so its refusal never counts (`Binary64.exists_longestFront`).

Key definitions: `Binary64.Spells`, `Binary64.LongestFront`, `Binary64.BeginsNumber`.
Key theorems: `Binary64.Spells.parse?_eq`, `Binary64.longestFront_of_found`,
`Binary64.ofFront_eq_nan_iff`, `Binary64.exists_longestFront`.
-/
import OpenScad.Proofs.Number.Range
import OpenScad.Proofs.Number.Search

namespace OpenScad
namespace Binary64

open Decimal (signText)

/-! ### Texts of numbers -/

/-- The text spells the number, but for its sign. -/
inductive SpellsMagnitude (negative : Bool) : Binary64 → List Char → Prop where
  | infinity : SpellsMagnitude negative (.infinite negative) "Infinity".toList
  | numeral {d : Decimal} {t : List Char} (spelled : d.Spelled t) :
      SpellsMagnitude negative
        (nearest negative (d.coefficient * 10 ^ d.exponent.toNat) (10 ^ (-d.exponent).toNat)) t

/-- The text spells the number: a sign or none, then "Infinity" or an unsigned numeral, which
stands for the number nearest to its decimal. -/
def Spells (x : Binary64) (t : List Char) : Prop :=
  ∃ sign body, t = signText sign ++ body ∧ SpellsMagnitude (sign == some true) x body

/-- The longest front of the text that spells a number, and that number. -/
structure LongestFront (text front : List Char) (x : Binary64) : Prop where
  starts : front <+: text
  spells : x.Spells front
  longest : ∀ {other : List Char} {y : Binary64}, other <+: text → y.Spells other →
    other.length ≤ front.length

/-- Behind its sign a number begins with "Infinity", a digit, or a point and a digit. -/
def BeginsMagnitude (s : List Char) : Prop := "Infinity".toList <+: s ∨ Decimal.Begins s

/-- The text begins with a sign or none and then with what makes a number. -/
def BeginsNumber (text : List Char) : Prop :=
  ∃ sign body, text = signText sign ++ body ∧ BeginsMagnitude body

theorem nearest_ne_nan (negative : Bool) (num den : Nat) : nearest negative num den ≠ .nan := by
  unfold nearest
  split
  · simp [zero]
  · simp only [ofFields]
    split <;> simp

/-! ### Magnitudes -/

variable {negative : Bool} {x : Binary64} {s body rest : List Char}

theorem SpellsMagnitude.begins (h : SpellsMagnitude negative x body) : BeginsMagnitude body := by
  cases h with
  | infinity => exact .inl (List.prefix_refl _)
  | numeral spelled => exact .inr spelled.begins

theorem BeginsMagnitude.append (h : BeginsMagnitude body) (rest : List Char) :
    BeginsMagnitude (body ++ rest) := by
  have hprefix : body <+: body ++ rest := List.prefix_append body rest
  rcases h with hword | ⟨c, hc, hbegins⟩
  · exact .inl (hword.trans hprefix)
  · exact .inr ⟨c, hc, hbegins.imp (·.trans hprefix) (·.trans hprefix)⟩

/-- The first character of a magnitude is a letter, a digit or a point. -/
theorem BeginsMagnitude.exists_cons (h : BeginsMagnitude s) :
    ∃ c rest, s = c :: rest ∧ (c = 'I' ∨ c.isDigit = true ∨ c = '.') := by
  rcases h with ⟨rest, rfl⟩ | ⟨c, hc, ⟨rest, rfl⟩ | ⟨rest, rfl⟩⟩
  · exact ⟨_, _, rfl, .inl rfl⟩
  · exact ⟨_, _, rfl, .inr (.inl hc)⟩
  · exact ⟨_, _, rfl, .inr (.inr rfl)⟩

/-- No magnitude begins with a sign. -/
theorem BeginsMagnitude.head? (h : BeginsMagnitude s) : ∀ c ∈ s.head?, c ≠ '+' ∧ c ≠ '-' := by
  obtain ⟨c, rest, rfl, hc⟩ := h.exists_cons
  rintro d ⟨⟩
  rcases hc with rfl | hdigit | rfl
  · decide
  · exact Decimal.not_sign_of_isDigit hdigit
  · decide

theorem not_word_of_begins (h : Decimal.Begins s) : ¬ "Infinity".toList <+: s := by
  rintro ⟨t, rfl⟩
  obtain ⟨c, hc, hdigit | hpoint⟩ := h
  · obtain ⟨u, hu⟩ := hdigit
    rw [(List.cons.inj hu).1] at hc
    exact absurd hc (by decide)
  · obtain ⟨u, hu⟩ := hpoint
    exact absurd (List.cons.inj hu).1 (by decide)

/-- What stands behind the magnitude at the front of a text. -/
def behindMagnitude (s : List Char) : Option (List Char) :=
  if "Infinity".toList <+: s then some (s.drop 8) else (Decimal.scan s).map (·.2)

theorem first_magnitude (s : List Char) :
    (Pattern.either (.literal "Infinity".toList) (.either wholePattern pointPattern)).first some s =
      behindMagnitude s := by
  rw [Pattern.first, Pattern.first_literal, first_numeral, behindMagnitude]
  by_cases hword : "Infinity".toList <+: s
  · rw [if_pos hword, if_pos hword]
    rfl
  · rw [if_neg hword, if_neg hword]
    rfl

theorem behindMagnitude_isSome_iff : (behindMagnitude s).isSome = true ↔ BeginsMagnitude s := by
  unfold behindMagnitude BeginsMagnitude
  by_cases hword : "Infinity".toList <+: s
  · rw [if_pos hword]
    exact iff_of_true rfl (.inl hword)
  · rw [if_neg hword, Option.isSome_map, Decimal.scan_isSome_iff, or_iff_right hword]

/-- What is taken spells a number. -/
theorem exists_of_behindMagnitude (negative : Bool) (h : behindMagnitude s = some rest) :
    ∃ x body, SpellsMagnitude negative x body ∧ s = body ++ rest := by
  unfold behindMagnitude at h
  split at h
  · rename_i hword
    obtain ⟨t, rfl⟩ := hword
    cases h
    exact ⟨_, _, .infinity, rfl⟩
  · obtain ⟨⟨d, t⟩, hscan, rfl⟩ := Option.map_eq_some_iff.mp h
    obtain ⟨front, hfront, hs⟩ := Decimal.exists_spelled_of_scan hscan
    exact ⟨_, _, .numeral hfront, hs⟩

/-- No less than a magnitude is taken. -/
theorem SpellsMagnitude.behind (h : SpellsMagnitude negative x body) (rest : List Char) :
    ∃ rest', behindMagnitude (body ++ rest) = some rest' ∧ rest'.length ≤ rest.length := by
  cases h with
  | infinity =>
    refine ⟨rest, ?_, Nat.le_refl _⟩
    rw [behindMagnitude, if_pos (List.prefix_append _ _)]
    rfl
  | numeral spelled =>
    obtain ⟨d', rest', hscan, hle⟩ := spelled.scan_append rest
    have hbegins : Decimal.Begins (body ++ rest) :=
      Decimal.scan_isSome_iff.mp (by rw [hscan]; rfl)
    refine ⟨rest', ?_, hle⟩
    rw [behindMagnitude, if_neg (not_word_of_begins hbegins), hscan]
    rfl

/-! ### Whole texts -/

theorem scanSign_of_begins (sign : Option Bool) (h : BeginsMagnitude body) :
    Decimal.scanSign (signText sign ++ body) = (sign, body) :=
  Decimal.scanSign_signText sign h.head?

/-- **The parser reads a text that spells a number as that number.** -/
theorem Spells.parse?_eq (h : x.Spells s) : parse? s = some x := by
  obtain ⟨sign, body, rfl, hbody⟩ := h
  have hsign := scanSign_of_begins sign hbody.begins
  unfold parse?
  simp only [hsign]
  cases hbody with
  | infinity =>
    have hnone : Decimal.scan "Infinity".toList = none := rfl
    have hname : ∀ negative, named? negative "Infinity".toList = some (.infinite negative) := by
      decide
    simp only [hnone, hname]
  | numeral spelled => simp only [spelled.scan_eq, ofDecimal_eq_nearest]

/-- A front is read as the number that it spells. -/
theorem Spells.readFront_eq (h : x.Spells s) : readFront s = x := by
  have hparse := h.parse?_eq
  obtain ⟨sign, body, rfl, hbody⟩ := h
  have hdrop : (signText sign ++ body).dropWhile signs.contains = body := by
    obtain ⟨c, rest, hc, -⟩ := hbody.begins.exists_cons
    obtain ⟨hplus, hminus⟩ := hbody.begins.head? c (by rw [hc]; rfl)
    have htest : signs.contains c = false := by simp [signs, hplus, hminus]
    rw [List.dropWhile_append_of_pos]
    · rw [hc]
      exact List.dropWhile_cons_of_neg (Bool.eq_false_iff.mp htest)
    · cases sign with
      | none => simp [signText]
      | some negative => cases negative <;> simp [signText, signs]
  unfold readFront
  rw [hdrop, hparse]
  cases hbody with
  | infinity =>
    rw [if_pos rfl]
    cases sign with
    | none => rfl
    | some negative => cases negative <;> rfl
  | numeral spelled =>
    have hne : ¬ body = "Infinity".toList := fun heq =>
      not_word_of_begins spelled.begins (heq ▸ List.prefix_refl _)
    rw [if_neg hne]
    rfl

/-! ### The number at the front -/

theorem found_frontPattern (s : List Char) : frontPattern.found s =
    (behindMagnitude (Decimal.scanSign s).2).map fun rest => s.take (s.length - rest.length) := by
  have hsign : ∀ c ∈ signs, ∀ t, behindMagnitude (c :: t) = none := by
    intro c hc t
    have hnot : ¬ BeginsMagnitude (c :: t) := fun hbegins => by
      have hne := hbegins.head? c rfl
      simp [signs, hne] at hc
    rw [← behindMagnitude_isSome_iff] at hnot
    simpa using hnot
  have hfirst : frontPattern.first some s = behindMagnitude (Decimal.scanSign s).2 := by
    rw [frontPattern, Pattern.first, funext first_magnitude]
    exact first_sign hsign s
  rw [Pattern.found, hfirst]

theorem beginsNumber_iff : BeginsNumber s ↔ BeginsMagnitude (Decimal.scanSign s).2 := by
  constructor
  · rintro ⟨sign, body, rfl, hbody⟩
    rw [scanSign_of_begins sign hbody]
    exact hbody
  · intro h
    exact ⟨_, _, (Decimal.signText_scanSign s).symm, h⟩

theorem found_isSome_iff : (frontPattern.found s).isSome = true ↔ BeginsNumber s := by
  rw [found_frontPattern, Option.isSome_map, behindMagnitude_isSome_iff, beginsNumber_iff]

theorem Spells.ne_nan (h : x.Spells s) : x ≠ .nan := by
  obtain ⟨sign, body, -, hbody⟩ := h
  cases hbody with
  | infinity => simp
  | numeral => exact nearest_ne_nan _ _ _

/-- **The search takes the longest front that spells a number.** -/
theorem longestFront_of_found {front : List Char} (h : frontPattern.found s = some front) :
    LongestFront s front (readFront front) := by
  rw [found_frontPattern] at h
  obtain ⟨rest, hrest, hfront⟩ := Option.map_eq_some_iff.mp h
  obtain ⟨x, body, hbody, hbehind⟩ :=
    exists_of_behindMagnitude ((Decimal.scanSign s).1 == some true) hrest
  have hsplit : s = signText (Decimal.scanSign s).1 ++ body ++ rest := by
    rw [List.append_assoc, ← hbehind, Decimal.signText_scanSign]
  have htake : front = signText (Decimal.scanSign s).1 ++ body := by
    rw [← hfront]
    generalize signText (Decimal.scanSign s).1 ++ body = taken at hsplit
    rw [hsplit, List.length_append, Nat.add_sub_cancel, List.take_left]
  have hspells : x.Spells front := ⟨_, body, htake, hbody⟩
  rw [← htake] at hsplit
  rw [hspells.readFront_eq]
  refine ⟨⟨rest, hsplit.symm⟩, hspells, ?_⟩
  rintro other y ⟨more, hmore⟩ ⟨sign, body', rfl, hbody'⟩
  -- the other front has the same sign, and no less than its magnitude is taken
  have hsign : Decimal.scanSign s = (sign, body' ++ more) := by
    rw [← hmore, List.append_assoc]
    exact scanSign_of_begins sign (hbody'.begins.append more)
  obtain ⟨rest', hrest', hle⟩ := hbody'.behind more
  have hsame : rest = rest' := by
    rw [hsign, hrest'] at hrest
    exact (Option.some.inj hrest).symm
  have hlength := congrArg List.length (hmore.trans hsplit)
  simp only [List.length_append, hsame] at hlength ⊢
  omega

/-- **A text gives no number** if and only if none begins behind its leading white space. -/
theorem ofFront_eq_nan_iff (text : List Char) :
    ofFront text = .nan ↔ ¬ BeginsNumber (Text.trimBlankStart text) := by
  unfold ofFront
  rw [← found_isSome_iff]
  cases h : frontPattern.found (Text.trimBlankStart text) with
  | none => simp
  | some front =>
    have hspells := (longestFront_of_found h).spells
    simp [hspells.ne_nan]

/-- **The number of a text** is what the longest front spells that spells a number, and the
parser reads that front. -/
theorem exists_longestFront {text : List Char} (h : BeginsNumber (Text.trimBlankStart text)) :
    ∃ front, frontPattern.found (Text.trimBlankStart text) = some front ∧
      LongestFront (Text.trimBlankStart text) front (ofFront text) ∧
      parse? front = some (ofFront text) := by
  obtain ⟨front, hfound⟩ := Option.isSome_iff_exists.mp (found_isSome_iff.mpr h)
  have hlongest := longestFront_of_found hfound
  have hnumber : ofFront text = readFront front := by rw [ofFront, hfound]
  rw [hnumber]
  exact ⟨front, hfound, hlongest, hlongest.spells.parse?_eq⟩

/-- A text that spells a number is its own longest front. -/
theorem Spells.longestFront (h : x.Spells s) : LongestFront s s x :=
  ⟨List.prefix_refl s, h, fun hother _ => hother.length_le⟩

theorem LongestFront.unique {front other : List Char} {y : Binary64} (h : LongestFront s front x)
    (h' : LongestFront s other y) : front = other ∧ x = y := by
  have hlength : front.length = other.length :=
    Nat.le_antisymm (h'.longest h.starts h.spells) (h.longest h'.starts h'.spells)
  have hsame : front = other :=
    (List.prefix_of_prefix_length_le h.starts h'.starts (Nat.le_of_eq hlength)).eq_of_length hlength
  have hparse := h.spells.parse?_eq
  rw [hsame, h'.spells.parse?_eq] at hparse
  exact ⟨hsame, (Option.some.inj hparse).symm⟩

end Binary64
end OpenScad
