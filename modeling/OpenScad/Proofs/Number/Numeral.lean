/-
# The grammar of numerals

Which texts spell an unsigned numeral, and which decimal: digits with an
optional point and further digits, or a point and at least one digit, and in
both cases an optional power of ten. The scanner takes the longest such text off
the front of a text (`Decimal.exists_spelled_of_scan`, `Decimal.Spelled.scan_append`):
a mark of a power counts only with a digit behind it, and a point only with a
digit on one of its sides. So a text that spells a numeral is scanned to its end
(`Decimal.Spelled.scan_eq`).

Key definitions: `Decimal.signText`, `Decimal.Spelled`.
Key theorems: `Decimal.exists_spelled_of_scan`, `Decimal.Spelled.scan_append`,
`Decimal.Spelled.scan_eq`, `Decimal.scan_isSome_iff`.
-/
import OpenScad.Proofs.Json.Reading

namespace OpenScad
namespace Decimal

open Json (Digits SpellsPower NoDigit)

/-- The text of a sign or of the absence of one. -/
def signText : Option Bool → List Char
  | none => []
  | some false => ['+']
  | some true => ['-']

/-- The text spells the digits behind the point, and the point if there is one. -/
inductive SpellsTail : List Char → List Char → Prop where
  | absent : SpellsTail [] []
  | point {ds : List Char} (isDigit : ∀ c ∈ ds, c.isDigit = true) : SpellsTail ds ('.' :: ds)

/-- The text spells the decimal, as an unsigned numeral. -/
inductive Spelled : Decimal → List Char → Prop where
  | whole {ds fraction tail power : List Char} {e : Option Int} (digits : Digits ds)
      (spells_tail : SpellsTail fraction tail) (spells_power : SpellsPower e power) :
      Spelled { coefficient := ofDigits (ds ++ fraction), exponent := e.getD 0 - fraction.length }
        (ds ++ (tail ++ power))
  | point {ds power : List Char} {e : Option Int} (digits : Digits ds)
      (spells_power : SpellsPower e power) :
      Spelled { coefficient := ofDigits ds, exponent := e.getD 0 - ds.length }
        ('.' :: (ds ++ power))

/-! ### Signs and digits -/

theorem signText_scanSign (s : List Char) : signText (scanSign s).1 ++ (scanSign s).2 = s := by
  unfold scanSign
  split <;> rfl

theorem scanSign_signText {s : List Char} (sign : Option Bool)
    (h : ∀ c ∈ s.head?, c ≠ '+' ∧ c ≠ '-') : scanSign (signText sign ++ s) = (sign, s) := by
  cases sign with
  | none =>
    show scanSign s = (none, s)
    unfold scanSign
    split
    · exact absurd rfl (h '+' rfl).1
    · exact absurd rfl (h '-' rfl).2
    · rfl
  | some negative => cases negative <;> rfl

theorem not_sign_of_isDigit {c : Char} (h : c.isDigit = true) : c ≠ '+' ∧ c ≠ '-' := by
  constructor <;> rintro rfl <;> cases h

theorem head?_digits_append {ds : List Char} (h : Digits ds) (rest : List Char) :
    ∀ c ∈ (ds ++ rest).head?, c.isDigit = true := by
  obtain ⟨d, ds, rfl⟩ := List.exists_cons_of_ne_nil h.ne_nil
  rintro c ⟨⟩
  exact h.isDigit d List.mem_cons_self

theorem isDigit_of_mem_takeWhile {s : List Char} :
    ∀ c ∈ s.takeWhile Char.isDigit, c.isDigit = true :=
  fun c hc => List.all_eq_true.mp List.all_takeWhile c hc

theorem takeWhile_digits {ds rest : List Char} (h : ∀ c ∈ ds, c.isDigit = true)
    (hrest : NoDigit rest) : (ds ++ rest).takeWhile Char.isDigit = ds :=
  congrArg Prod.fst (Json.scanDigits_append h hrest)

theorem dropWhile_digits {ds rest : List Char} (h : ∀ c ∈ ds, c.isDigit = true)
    (hrest : NoDigit rest) : (ds ++ rest).dropWhile Char.isDigit = rest :=
  congrArg Prod.snd (Json.scanDigits_append h hrest)

theorem length_dropWhile_le (s : List Char) : (s.dropWhile Char.isDigit).length ≤ s.length :=
  (List.dropWhile_sublist _).length_le

/-! ### Powers of ten -/

/-- A whole number with a sign. -/
def signed (sign : Option Bool) (n : Nat) : Int := if sign = some true then -n else n

theorem spellsPower_signed {mark : Char} {ds : List Char} (hmark : mark ∈ ['e', 'E'])
    (hds : Digits ds) (sign : Option Bool) :
    SpellsPower (some (signed sign (ofDigits ds))) (mark :: (signText sign ++ ds)) :=
  match sign with
  | none => .plain hmark hds
  | some false => .plus hmark hds
  | some true => .minus hmark hds

/-- A power is absent, or a mark, a sign if there is one, and digits. -/
theorem cases_of_spellsPower {e : Option Int} {power : List Char} (h : SpellsPower e power) :
    e = none ∧ power = [] ∨ ∃ mark ∈ ['e', 'E'], ∃ sign ds, Digits ds ∧
      e = some (signed sign (ofDigits ds)) ∧ power = mark :: (signText sign ++ ds) := by
  cases h with
  | absent => exact .inl ⟨rfl, rfl⟩
  | plain hmark hds => exact .inr ⟨_, hmark, none, _, hds, rfl, rfl⟩
  | plus hmark hds => exact .inr ⟨_, hmark, some false, _, hds, rfl, rfl⟩
  | minus hmark hds => exact .inr ⟨_, hmark, some true, _, hds, rfl, rfl⟩

theorem scanExponent_mark {mark : Char} {ds : List Char} (hmark : mark ∈ ['e', 'E'])
    (hds : Digits ds) (sign : Option Bool) (rest : List Char) :
    scanExponent (mark :: (signText sign ++ (ds ++ rest))) =
      (signed sign (ofDigits (ds ++ rest.takeWhile Char.isDigit)),
        rest.dropWhile Char.isDigit) := by
  have hmark' : mark = 'e' ∨ mark = 'E' := by simpa using hmark
  have hsign : scanSign (signText sign ++ (ds ++ rest)) = (sign, ds ++ rest) :=
    scanSign_signText sign fun c hc => not_sign_of_isDigit (head?_digits_append hds rest c hc)
  have htake : (ds ++ rest).takeWhile Char.isDigit = ds ++ rest.takeWhile Char.isDigit :=
    List.takeWhile_append_of_pos hds.isDigit
  have hdrop : (ds ++ rest).dropWhile Char.isDigit = rest.dropWhile Char.isDigit :=
    List.dropWhile_append_of_pos hds.isDigit
  have hne : ¬ (ds ++ rest.takeWhile Char.isDigit).isEmpty = true := by
    simp [hds.ne_nil]
  simp only [scanExponent, if_pos hmark', hsign, htake, hdrop, if_neg hne, signed]

/-- What the scanner takes for a power spells it. -/
theorem exists_spellsPower (s : List Char) :
    ∃ e power, SpellsPower e power ∧ e.getD 0 = (scanExponent s).1 ∧
      s = power ++ (scanExponent s).2 := by
  have absent : ∃ e power, SpellsPower e power ∧ e.getD 0 = 0 ∧ s = power ++ s :=
    ⟨none, [], .absent, rfl, rfl⟩
  cases s with
  | nil => exact absent
  | cons c rest =>
    unfold scanExponent
    by_cases hmark : c = 'e' ∨ c = 'E'
    · simp only [if_pos hmark]
      by_cases hnone : ((scanSign rest).2.takeWhile Char.isDigit).isEmpty = true
      · simp only [if_pos hnone]
        exact absent
      · simp only [if_neg hnone]
        have hdigits : Digits ((scanSign rest).2.takeWhile Char.isDigit) :=
          ⟨by simpa using hnone, isDigit_of_mem_takeWhile⟩
        refine ⟨_, _, spellsPower_signed (by simpa using hmark) hdigits (scanSign rest).1, rfl, ?_⟩
        rw [List.cons_append, List.append_assoc, List.takeWhile_append_dropWhile,
          signText_scanSign]
    · simp only [if_neg hmark]
      exact absent

theorem length_scanExponent_le (s : List Char) : (scanExponent s).2.length ≤ s.length := by
  obtain ⟨e, power, -, -, hs⟩ := exists_spellsPower s
  have hlength := congrArg List.length hs
  rw [List.length_append] at hlength
  omega

variable {e : Option Int} {power : List Char}

/-- Behind the text of a power the scanner takes at most more digits. -/
theorem length_scanExponent_append (h : SpellsPower e power) (rest : List Char) :
    (scanExponent (power ++ rest)).2.length ≤ rest.length := by
  rcases cases_of_spellsPower h with ⟨-, rfl⟩ | ⟨mark, hmark, sign, ds, hds, -, rfl⟩
  · exact length_scanExponent_le rest
  · rw [List.cons_append, List.append_assoc, scanExponent_mark hmark hds]
    exact length_dropWhile_le rest

/-- The text of a power is scanned to its end. -/
theorem scanExponent_eq (h : SpellsPower e power) : scanExponent power = (e.getD 0, []) := by
  rcases cases_of_spellsPower h with ⟨rfl, rfl⟩ | ⟨mark, hmark, sign, ds, hds, rfl, rfl⟩
  · rfl
  · have hscan := scanExponent_mark hmark hds sign []
    simpa using hscan

/-- A power begins with no digit and no point. -/
theorem head?_power (h : SpellsPower e power) :
    ∀ c ∈ power.head?, c.isDigit = false ∧ c ≠ '.' := by
  rcases cases_of_spellsPower h with ⟨-, rfl⟩ | ⟨mark, hmark, sign, ds, -, -, rfl⟩
  · simp
  · rintro c ⟨⟩
    have hletter : mark = 'e' ∨ mark = 'E' := by simpa using hmark
    rcases hletter with rfl | rfl <;> exact ⟨rfl, by decide⟩

/-! ### Digits around the point -/

theorem scan_of_scanDigits {s ds fraction rest : List Char}
    (h : scanDigits s = some (ds, fraction, rest)) : scan s =
      some ({ coefficient := ofDigits (ds ++ fraction)
              exponent := (scanExponent rest).1 - fraction.length }, (scanExponent rest).2) := by
  unfold scan
  rw [h]
  rfl

theorem exists_scanDigits_of_scan {s rest : List Char} {d : Decimal}
    (h : scan s = some (d, rest)) :
    ∃ ds fraction behind, scanDigits s = some (ds, fraction, behind) ∧
      d.coefficient = ofDigits (ds ++ fraction) ∧
      d.exponent = (scanExponent behind).1 - fraction.length ∧ rest = (scanExponent behind).2 := by
  cases hs : scanDigits s with
  | none => simp [scan, hs] at h
  | some parts =>
    obtain ⟨ds, fraction, behind⟩ := parts
    rw [scan_of_scanDigits hs] at h
    cases h
    exact ⟨ds, fraction, behind, rfl, rfl, rfl, rfl⟩

/-- Behind digits and no point. -/
theorem scanDigits_plain {s : List Char} (h : ∀ rest, s.dropWhile Char.isDigit ≠ '.' :: rest) :
    scanDigits s =
      if (s.takeWhile Char.isDigit).isEmpty then none
      else some (s.takeWhile Char.isDigit, [], s.dropWhile Char.isDigit) := by
  unfold scanDigits
  split
  · rename_i rest heq
    exact absurd heq (h rest)
  · rfl

/-- Behind digits and a point. -/
theorem scanDigits_point {s rest : List Char} (h : s.dropWhile Char.isDigit = '.' :: rest) :
    scanDigits s =
      if (s.takeWhile Char.isDigit).isEmpty && (rest.takeWhile Char.isDigit).isEmpty then none
      else some (s.takeWhile Char.isDigit, rest.takeWhile Char.isDigit,
        rest.dropWhile Char.isDigit) := by
  simp only [scanDigits, h]

/-- Digits, a point and the digits behind it are taken with all digits that follow. -/
theorem scanDigits_whole {ds fraction : List Char} (hds : Digits ds)
    (hfraction : ∀ c ∈ fraction, c.isDigit = true) (rest : List Char) :
    scanDigits (ds ++ '.' :: (fraction ++ rest)) =
      some (ds, fraction ++ rest.takeWhile Char.isDigit, rest.dropWhile Char.isDigit) := by
  have hstop : NoDigit ('.' :: (fraction ++ rest)) := by
    rintro c ⟨⟩
    rfl
  have hne : ds.isEmpty = false := by simp [hds.ne_nil]
  rw [scanDigits_point (dropWhile_digits hds.isDigit hstop), takeWhile_digits hds.isDigit hstop,
    hne, List.takeWhile_append_of_pos hfraction, List.dropWhile_append_of_pos hfraction]
  rfl

/-- A point and the digits behind it are taken with all digits that follow. -/
theorem scanDigits_fraction {ds : List Char} (hds : Digits ds) (rest : List Char) :
    scanDigits ('.' :: (ds ++ rest)) =
      some ([], ds ++ rest.takeWhile Char.isDigit, rest.dropWhile Char.isDigit) := by
  have hpoint : ¬ ('.').isDigit = true := by decide
  have hne : (ds ++ rest.takeWhile Char.isDigit).isEmpty = false := by simp [hds.ne_nil]
  rw [scanDigits_point (List.dropWhile_cons_of_neg hpoint), List.takeWhile_cons_of_neg hpoint,
    List.takeWhile_append_of_pos hds.isDigit, List.dropWhile_append_of_pos hds.isDigit, hne,
    Bool.and_false]
  rfl

/-- What is taken are digits, and a point with the digits behind it if there is one; digits
stand on one of its sides. -/
theorem exists_spellsTail {s ds fraction behind : List Char}
    (h : scanDigits s = some (ds, fraction, behind)) :
    ∃ tail, SpellsTail fraction tail ∧ s = ds ++ (tail ++ behind) ∧
      (∀ c ∈ ds, c.isDigit = true) ∧ (ds ≠ [] ∨ Digits fraction ∧ tail = '.' :: fraction) := by
  have hsplit : s = s.takeWhile Char.isDigit ++ s.dropWhile Char.isDigit :=
    List.takeWhile_append_dropWhile.symm
  by_cases hpoint : ∃ r, s.dropWhile Char.isDigit = '.' :: r
  · obtain ⟨r, hr⟩ := hpoint
    rw [scanDigits_point hr] at h
    split at h
    · cases h
    · rename_i hsome
      cases h
      refine ⟨_, .point isDigit_of_mem_takeWhile, ?_, isDigit_of_mem_takeWhile, ?_⟩
      · rw [List.cons_append, List.takeWhile_append_dropWhile, ← hr]
        exact hsplit
      · by_cases hnone : s.takeWhile Char.isDigit = []
        · exact .inr ⟨⟨by simpa [hnone] using hsome, isDigit_of_mem_takeWhile⟩, rfl⟩
        · exact .inl hnone
  · rw [scanDigits_plain fun r hr => hpoint ⟨r, hr⟩] at h
    split at h
    · cases h
    · rename_i hsome
      cases h
      exact ⟨[], .absent, hsplit, isDigit_of_mem_takeWhile, .inl (by simpa using hsome)⟩

/-! ### Numerals -/

/-- **What the scanner takes spells the decimal.** -/
theorem exists_spelled_of_scan {s rest : List Char} {d : Decimal}
    (h : scan s = some (d, rest)) : ∃ front, d.Spelled front ∧ s = front ++ rest := by
  obtain ⟨ds, fraction, behind, hdigits, hcoefficient, hexponent, rfl⟩ :=
    exists_scanDigits_of_scan h
  obtain ⟨e, power, hpower, hvalue, hbehind⟩ := exists_spellsPower behind
  obtain ⟨tail, htail, hs, hdigit, hsome⟩ := exists_spellsTail hdigits
  have hd : d = { coefficient := ofDigits (ds ++ fraction)
                  exponent := e.getD 0 - fraction.length } := by
    rw [hvalue, ← hcoefficient, ← hexponent]
  have hfront : s = ds ++ (tail ++ power) ++ (scanExponent behind).2 := by
    rw [List.append_assoc, List.append_assoc, ← hbehind]
    exact hs
  rw [hd]
  by_cases hne : ds = []
  · obtain ⟨hfraction, htail'⟩ := hsome.resolve_left (not_not_intro hne)
    rw [hne, htail'] at hfront
    rw [hne]
    exact ⟨_, .point hfraction hpower, hfront⟩
  · exact ⟨_, .whole ⟨hne, hdigit⟩ htail hpower, hfront⟩

/-- Digits that the scanner takes before a power make the rest no longer. -/
theorem length_scanExponent_dropWhile (h : SpellsPower e power) (rest : List Char) :
    (scanExponent ((power ++ rest).dropWhile Char.isDigit)).2.length ≤ rest.length := by
  rcases cases_of_spellsPower h with ⟨-, rfl⟩ | ⟨mark, hmark, sign, ds, -, -, rfl⟩
  · exact Nat.le_trans (length_scanExponent_le _) (length_dropWhile_le rest)
  · have hdrop : ((mark :: (signText sign ++ ds)) ++ rest).dropWhile Char.isDigit =
        (mark :: (signText sign ++ ds)) ++ rest := by
      have hc := (head?_power h mark rfl).1
      exact List.dropWhile_cons_of_neg (by simp [hc])
    rw [hdrop]
    exact length_scanExponent_append h rest

/-- A point in place of a power is behind everything else. -/
theorem length_point_le {rest r : List Char} (h : SpellsPower e power)
    (hr : (power ++ rest).dropWhile Char.isDigit = '.' :: r) : r.length ≤ rest.length := by
  rcases cases_of_spellsPower h with ⟨-, rfl⟩ | ⟨mark, hmark, sign, ds, -, -, rfl⟩
  · have hle := length_dropWhile_le rest
    rw [List.nil_append] at hr
    rw [hr, List.length_cons] at hle
    omega
  · obtain ⟨hdigit, hne⟩ := head?_power h mark rfl
    rw [List.cons_append, List.dropWhile_cons_of_neg (by simp [hdigit])] at hr
    exact absurd (List.cons.inj hr).1 hne

variable {d : Decimal} {front : List Char}

/-- Behind digits and a power there may be a point still, but only where there is no power. -/
theorem scan_digits_append {ds : List Char} (hds : Digits ds) (hpower : SpellsPower e power)
    (rest : List Char) : ∃ d' rest', scan (ds ++ (power ++ rest)) = some (d', rest') ∧
      rest'.length ≤ rest.length := by
  have htake : ((ds ++ (power ++ rest)).takeWhile Char.isDigit).isEmpty = false := by
    rw [List.takeWhile_append_of_pos hds.isDigit]
    simp [hds.ne_nil]
  have hdrop : (ds ++ (power ++ rest)).dropWhile Char.isDigit =
      (power ++ rest).dropWhile Char.isDigit := List.dropWhile_append_of_pos hds.isDigit
  by_cases hbehind : ∃ r, (power ++ rest).dropWhile Char.isDigit = '.' :: r
  · obtain ⟨r, hr⟩ := hbehind
    have hdigits := scanDigits_point (hdrop.trans hr)
    rw [htake, Bool.false_and, if_neg Bool.false_ne_true] at hdigits
    refine ⟨_, _, scan_of_scanDigits hdigits, ?_⟩
    calc _ ≤ (r.dropWhile Char.isDigit).length := length_scanExponent_le _
      _ ≤ r.length := length_dropWhile_le r
      _ ≤ rest.length := length_point_le hpower hr
  · have hdigits := scanDigits_plain fun r hr => hbehind ⟨r, hdrop.symm.trans hr⟩
    rw [htake, if_neg Bool.false_ne_true, hdrop] at hdigits
    exact ⟨_, _, scan_of_scanDigits hdigits, length_scanExponent_dropWhile hpower rest⟩

/-- **The scanner takes no less than a numeral at the front of a text.** -/
theorem Spelled.scan_append (h : d.Spelled front) (rest : List Char) :
    ∃ d' rest', scan (front ++ rest) = some (d', rest') ∧ rest'.length ≤ rest.length := by
  cases h with
  | @whole ds fraction tail power e hds htail hpower =>
    rw [List.append_assoc, List.append_assoc]
    cases htail with
    | absent => exact scan_digits_append hds hpower rest
    | point hfraction =>
      have hdigits := scanDigits_whole hds hfraction (power ++ rest)
      exact ⟨_, _, scan_of_scanDigits hdigits, length_scanExponent_dropWhile hpower rest⟩
  | @point ds power e hds hpower =>
    rw [List.cons_append, List.append_assoc]
    have hdigits := scanDigits_fraction hds (power ++ rest)
    exact ⟨_, _, scan_of_scanDigits hdigits, length_scanExponent_dropWhile hpower rest⟩

theorem noDigit_power (h : SpellsPower e power) : NoDigit power :=
  fun c hc => (head?_power h c hc).1

theorem takeWhile_power (h : SpellsPower e power) : power.takeWhile Char.isDigit = [] :=
  @takeWhile_digits [] power (List.forall_mem_nil _) (noDigit_power h)

theorem dropWhile_power (h : SpellsPower e power) : power.dropWhile Char.isDigit = power :=
  @dropWhile_digits [] power (List.forall_mem_nil _) (noDigit_power h)

/-- Digits with a power behind them are taken alone. -/
theorem scanDigits_power {ds : List Char} (hds : Digits ds) (hpower : SpellsPower e power) :
    scanDigits (ds ++ power) = some (ds, [], power) := by
  have hne : ds.isEmpty = false := by simp [hds.ne_nil]
  have hdrop := dropWhile_digits hds.isDigit (noDigit_power hpower)
  rw [scanDigits_plain, takeWhile_digits hds.isDigit (noDigit_power hpower), hne, hdrop]
  · rfl
  · intro r hr
    rw [hdrop] at hr
    exact (head?_power hpower '.' (by rw [hr]; rfl)).2 rfl

/-- **A numeral is scanned to its end**, as the decimal that it spells. -/
theorem Spelled.scan_eq (h : d.Spelled front) : scan front = some (d, []) := by
  cases h with
  | @whole ds fraction tail power e hds htail hpower =>
    have hdigits : scanDigits (ds ++ (tail ++ power)) = some (ds, fraction, power) := by
      cases htail with
      | absent => exact scanDigits_power hds hpower
      | point hfraction =>
        rw [List.cons_append, scanDigits_whole hds hfraction, takeWhile_power hpower,
          dropWhile_power hpower, List.append_nil]
    rw [scan_of_scanDigits hdigits, scanExponent_eq hpower]
  | @point ds power e hds hpower =>
    have hdigits := scanDigits_fraction hds power
    rw [takeWhile_power hpower, dropWhile_power hpower, List.append_nil] at hdigits
    rw [scan_of_scanDigits hdigits, scanExponent_eq hpower, List.nil_append]

/-- A text begins with a digit, or with a point and a digit. -/
def Begins (s : List Char) : Prop := ∃ c : Char, c.isDigit = true ∧ ([c] <+: s ∨ ['.', c] <+: s)

theorem Spelled.begins (h : d.Spelled front) : Begins front := by
  cases h with
  | whole hds =>
    obtain ⟨c, ds, rfl⟩ := List.exists_cons_of_ne_nil hds.ne_nil
    exact ⟨c, hds.isDigit c List.mem_cons_self, .inl ⟨_, rfl⟩⟩
  | point hds =>
    obtain ⟨c, ds, rfl⟩ := List.exists_cons_of_ne_nil hds.ne_nil
    exact ⟨c, hds.isDigit c List.mem_cons_self, .inr ⟨_, rfl⟩⟩

/-- **A numeral is found at the front of a text** if and only if the text begins with a digit,
or with a point and a digit. -/
theorem scan_isSome_iff {s : List Char} : (scan s).isSome = true ↔ Begins s := by
  constructor
  · intro h
    obtain ⟨⟨d, rest⟩, hscan⟩ := Option.isSome_iff_exists.mp h
    obtain ⟨front, hfront, rfl⟩ := exists_spelled_of_scan hscan
    obtain ⟨c, hc, hbegins⟩ := hfront.begins
    have hprefix : front <+: front ++ rest := List.prefix_append front rest
    exact ⟨c, hc, hbegins.imp (·.trans hprefix) (·.trans hprefix)⟩
  · rintro ⟨c, hc, hbegins⟩
    have hdigits : Digits [c] := ⟨List.cons_ne_nil c [], by simpa using hc⟩
    rcases hbegins with ⟨rest, rfl⟩ | ⟨rest, rfl⟩
    · obtain ⟨d, rest', hscan, -⟩ := (Spelled.whole hdigits .absent .absent).scan_append rest
      exact Option.isSome_iff_exists.mpr ⟨_, hscan⟩
    · obtain ⟨d, rest', hscan, -⟩ := (Spelled.point hdigits .absent).scan_append rest
      exact Option.isSome_iff_exists.mpr ⟨_, hscan⟩

end Decimal
end OpenScad
