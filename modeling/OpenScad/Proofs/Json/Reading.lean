/-
# Every JSON text is read

A text that spells a JSON value is read as that value (`Json.read?_of_isTextOf`).
So no text spells two values.

A token is read off the front of a text whatever comes behind, except that a
numeral goes on as long as it can: what comes behind a value must not go on with
it, and behind a value stands the end, a blank, a comma or a closing bracket
(`Json.Stops`). The reader is given a count that bounds the nesting; the length
of the text is enough, as every part of a value is shorter than the value.

Key definitions: `Json.Stops`, `Json.ReadsWithin`.
Key theorems: `Json.next_numeral`, `Json.next_text`, `Json.readsWithin`,
`Json.read?_of_isTextOf`.
-/
import OpenScad.Proofs.Json.Grammar

namespace OpenScad
namespace Json

/-! ### Blanks -/

theorem skipBlanks_append {w : List Char} (h : Blank w) (t : List Char) :
    skipBlanks (w ++ t) = skipBlanks t := List.dropWhile_append_of_pos h

/-- Blanks before a token are skipped. -/
theorem next_append {w : List Char} (h : Blank w) (t : List Char) : next (w ++ t) = next t := by
  rw [next, next, skipBlanks_append h]

theorem next_cons {c : Char} (h : isBlank c = false) (rest : List Char) :
    next (c :: rest) = tokenAt c rest := by
  have hskip : skipBlanks (c :: rest) = c :: rest := List.dropWhile_cons_of_neg (by simp [h])
  rw [next, hskip]

/-! ### Numbers -/

/-- A digit does not come next. -/
def NoDigit (rest : List Char) : Prop := ∀ c ∈ rest.head?, c.isDigit = false

theorem scanDigits_append {ds rest : List Char} (h : ∀ c ∈ ds, c.isDigit = true)
    (hrest : NoDigit rest) : scanDigits (ds ++ rest) = (ds, rest) := by
  rw [scanDigits, List.takeWhile_append_of_pos h, List.dropWhile_append_of_pos h]
  cases rest with
  | nil => simp
  | cons c rest =>
    have hc : ¬ c.isDigit = true := by simp [hrest c rfl]
    rw [List.takeWhile_cons_of_neg hc, List.dropWhile_cons_of_neg hc, List.append_nil]

/-- The text does not go on with a value that ends before it. -/
def Stops (rest : List Char) : Prop :=
  ∀ c ∈ rest.head?, isBlank c = true ∨ c ∈ [',', ']', '\x7d']

theorem stops_cons {c : Char} (h : isBlank c = true ∨ c ∈ [',', ']', '\x7d']) (rest : List Char) :
    Stops (c :: rest) := by
  rintro d ⟨⟩
  exact h

theorem Stops.append {w rest : List Char} (h : Blank w) (hrest : Stops rest) :
    Stops (w ++ rest) := by
  cases w with
  | nil => exact hrest
  | cons c w => exact stops_cons (.inl (h c List.mem_cons_self)) _

/-- A character that stops a value goes on with no numeral. -/
theorem Stops.head {rest : List Char} (h : Stops rest) :
    ∀ c ∈ rest.head?, c.isDigit = false ∧ c ≠ '.' ∧ c ≠ 'e' ∧ c ≠ 'E' := by
  intro c hc
  have hmem : c ∈ [' ', '\t', '\n', '\r', ',', ']', '\x7d'] := by
    rcases h c hc with hblank | hmem
    · simp only [isBlank, Bool.or_eq_true, decide_eq_true_eq] at hblank
      rcases hblank with ((rfl | rfl) | rfl) | rfl <;> decide
    · exact List.mem_append_right [' ', '\t', '\n', '\r'] hmem
  have hall : ∀ d ∈ [' ', '\t', '\n', '\r', ',', ']', '\x7d'],
      d.isDigit = false ∧ d ≠ '.' ∧ d ≠ 'e' ∧ d ≠ 'E' := by simp
  exact hall c hmem

theorem scanWhole_append {n : Numeral} {t rest : List Char} (h : n.SpelledUnsigned t)
    (hrest : NoDigit rest) : scanWhole (n.whole ++ rest) = some (n.whole, rest) := by
  rw [scanWhole, scanDigits_append h.whole.isDigit hrest]
  split
  · rename_i heq
    exact absurd (congrArg Prod.fst heq) h.whole.ne_nil
  · rename_i heq
    have hwhole := congrArg Prod.fst heq
    simp only at hwhole
    rcases h.leading with hzero | hne
    · rw [hwhole] at hzero
      cases hzero
    · rw [hwhole] at hne
      exact absurd rfl hne
  · rename_i heq
    rw [heq]

theorem scanFraction_append {fraction : Option (List Char)} {t rest : List Char}
    (h : SpellsFraction fraction t) (hrest : ∀ c ∈ rest.head?, c.isDigit = false ∧ c ≠ '.') :
    scanFraction (t ++ rest) = some (fraction, rest) := by
  cases h with
  | absent =>
    rw [List.nil_append]
    unfold scanFraction
    split
    · exact absurd rfl (hrest '.' rfl).2
    · rfl
  | @digits ds hds =>
    rw [List.cons_append, scanFraction, scanDigits_append hds.isDigit fun c hc => (hrest c hc).1]
    split
    · rename_i heq
      exact absurd (congrArg Prod.fst heq) hds.ne_nil
    · rename_i heq
      cases heq
      rfl

theorem scanSign_append {ds : List Char} (h : Digits ds) (rest : List Char) :
    Decimal.scanSign (ds ++ rest) = (none, ds ++ rest) := by
  obtain ⟨c, ds, rfl⟩ := List.exists_cons_of_ne_nil h.ne_nil
  have hc := h.isDigit c List.mem_cons_self
  rw [List.cons_append]
  unfold Decimal.scanSign
  split
  · rename_i heq
    cases heq
    cases hc
  · rename_i heq
    cases heq
    cases hc
  · rfl

/-- Behind the mark of a power come a sign, if there is one, and digits. -/
theorem scanPower_mark {mark : Char} {s : Option Bool} {signed ds rest : List Char}
    (hmark : mark ∈ ['e', 'E']) (hds : Digits ds) (hrest : NoDigit rest)
    (hsign : Decimal.scanSign signed = (s, ds ++ rest)) :
    scanPower (mark :: signed) =
      some (some (if s = some true then -(Decimal.ofDigits ds : Int) else Decimal.ofDigits ds),
        rest) := by
  have hmark' : mark = 'e' ∨ mark = 'E' := by simpa using hmark
  unfold scanPower
  simp only [if_pos hmark', hsign, scanDigits_append hds.isDigit hrest]
  split
  · rename_i heq
    exact absurd (congrArg Prod.fst heq) hds.ne_nil
  · rename_i heq
    obtain ⟨rfl, rfl⟩ := Prod.mk.inj heq
    rfl

theorem scanPower_append {power : Option Int} {t rest : List Char} (h : SpellsPower power t)
    (hrest : Stops rest) : scanPower (t ++ rest) = some (power, rest) := by
  have hdigit : NoDigit rest := fun c hc => (hrest.head c hc).1
  cases h with
  | absent =>
    cases rest with
    | nil => rfl
    | cons c rest =>
      have hc := hrest.head c rfl
      rw [List.nil_append, scanPower, if_neg (by simp [hc.2.2])]
  | plain hmark hds => exact scanPower_mark hmark hds hdigit (scanSign_append hds rest)
  | plus hmark hds => exact scanPower_mark (s := some false) hmark hds hdigit rfl
  | minus hmark hds => exact scanPower_mark (s := some true) hmark hds hdigit rfl

theorem head?_power_append {power : Option Int} {t rest : List Char} (h : SpellsPower power t)
    (hrest : Stops rest) : ∀ c ∈ (t ++ rest).head?, c.isDigit = false ∧ c ≠ '.' := by
  intro c hc
  cases h with
  | absent => exact ⟨(hrest.head c hc).1, (hrest.head c hc).2.1⟩
  | plain hmark | plus hmark | minus hmark =>
    cases hc
    have hall : ∀ d ∈ ['e', 'E'], d.isDigit = false ∧ d ≠ '.' := by simp
    exact hall _ hmark

theorem noDigit_fraction_append {fraction : Option (List Char)} {t rest : List Char}
    (h : SpellsFraction fraction t) (hrest : NoDigit rest) : NoDigit (t ++ rest) := by
  cases h with
  | absent => exact hrest
  | digits =>
    rintro c ⟨⟩
    rfl

theorem scanNumeral_append {n : Numeral} {t rest : List Char} (h : n.SpelledUnsigned t)
    (hrest : Stops rest) : scanNumeral n.negative (t ++ rest) = some (n, rest) := by
  obtain ⟨fraction, power, hfraction, hpower, rfl⟩ := h.parts
  have hbehind := head?_power_append hpower hrest
  have hnoDigit : NoDigit (fraction ++ (power ++ rest)) :=
    noDigit_fraction_append hfraction fun c hc => (hbehind c hc).1
  rw [scanNumeral, List.append_assoc, List.append_assoc, scanWhole_append h hnoDigit]
  simp [scanFraction_append hfraction hbehind, scanPower_append hpower hrest]

theorem tokenAt_digit {c : Char} (h : c.isDigit = true) (rest : List Char) :
    tokenAt c rest = (scanNumeral false (c :: rest)).map fun (n, rest) => (.number n, rest) := by
  unfold tokenAt
  split <;> first | rfl | cases h

theorem isBlank_of_isDigit {c : Char} (h : c.isDigit = true) : isBlank c = false := by
  rw [Bool.eq_false_iff]
  intro hblank
  simp only [isBlank, Bool.or_eq_true, decide_eq_true_eq] at hblank
  rcases hblank with ((rfl | rfl) | rfl) | rfl <;> cases h

/-- **A numeral is read off the front of a text** that goes on with what stops a value. -/
theorem next_numeral {n : Numeral} {t rest : List Char} (h : n.Spelled t) (hrest : Stops rest) :
    next (t ++ rest) = some (.number n, rest) := by
  obtain ⟨unsigned, hunsigned, rfl⟩ := h
  have hscan := scanNumeral_append hunsigned hrest
  by_cases hneg : n.negative = true
  · rw [if_pos hneg, List.cons_append, next_cons rfl]
    rw [hneg] at hscan
    change (scanNumeral true (unsigned ++ rest)).map _ = _
    rw [hscan]
    rfl
  · rw [if_neg hneg]
    rw [Bool.not_eq_true] at hneg
    rw [hneg] at hscan
    obtain ⟨c, t, hct, hc⟩ : ∃ c t, unsigned = c :: t ∧ c.isDigit = true := by
      obtain ⟨fraction, power, -, -, rfl⟩ := hunsigned.parts
      obtain ⟨c, ds, hds⟩ := List.exists_cons_of_ne_nil hunsigned.whole.ne_nil
      exact ⟨c, _, by rw [hds, List.cons_append],
        hunsigned.whole.isDigit c (hds ▸ List.mem_cons_self)⟩
    subst hct
    rw [List.cons_append, next_cons (isBlank_of_isDigit hc), tokenAt_digit hc]
    rw [List.cons_append] at hscan
    rw [hscan]
    rfl

/-! ### Strings and words -/

theorem scanUnits_append {units : List Unit16} {t : List Char} (h : SpellsUnits units t)
    (rest : List Char) : scanUnits (t ++ '"' :: rest) = some (units, rest) := by
  induction h with
  | nil => rfl
  | @char c units t hvisible hquote hbackslash _ ih =>
    rw [List.cons_append]
    unfold scanUnits
    split
    · rename_i heq
      cases heq
    · rename_i heq
      cases heq
      exact absurd rfl hquote
    · rename_i heq
      exact absurd (List.cons.inj heq).1 hbackslash
    · rename_i heq
      exact absurd (List.cons.inj heq).1 hbackslash
    · rename_i heq
      cases heq
      rw [if_neg (by simp [hbackslash, Nat.not_lt.mpr hvisible]), ih]
      rfl
  | @escape letter c units t hescaped _ ih =>
    have hletter : letter ≠ 'u' := by
      rintro rfl
      cases hescaped
    rw [List.cons_append, List.cons_append]
    unfold scanUnits
    split
    · rename_i heq
      cases heq
    · rename_i heq
      cases heq
    · rename_i heq
      exact absurd (List.cons.inj (List.cons.inj heq).2).1 hletter
    · rename_i heq
      cases heq
      rw [hescaped, ih]
      rfl
    · rename_i hne heq
      cases heq
      exact (hne _ _ rfl rfl).elim
  | code hcode _ ih =>
    simp only [List.cons_append, scanUnits, hcode, ih]
    rfl

/-- A string is read off the front of a text. -/
theorem next_text {chars t : List Char} (h : SpellsText chars t) (rest : List Char) :
    ∃ units, joinUnits units = some chars ∧ next (t ++ rest) = some (.text units, rest) := by
  obtain ⟨units, inner, hunits, hjoin, rfl⟩ := h
  refine ⟨units, hjoin, ?_⟩
  rw [List.cons_append, List.append_assoc, next_cons rfl]
  change (scanUnits (inner ++ '"' :: rest)).map _ = _
  rw [scanUnits_append hunits]
  rfl

/-- Behind blanks, a mark is read as its token. -/
theorem next_mark {w : List Char} {c : Char} {mark : Token} {rest : List Char} (h : Blank w)
    (hc : isBlank c = false) (hmark : tokenAt c rest = some (mark, rest)) :
    next (w ++ c :: rest) = some (mark, rest) := by
  rw [next_append h, next_cons hc, hmark]

theorem expect_of_next {token : Token} {input rest : List Char}
    (h : next input = some (token, rest)) : expect token input = some rest := by
  rw [expect, h]
  exact if_pos rfl

/-! ### Values -/

theorem readValue_append {join : Joining} {n : Nat} {w : List Char} (h : Blank w) (t : List Char) :
    readValue join n (w ++ t) = readValue join n t := by
  cases n with
  | zero => rfl
  | succ n => rw [readValue, readValue, next_append h]

/-- A closing bracket starts no value. -/
theorem readItems_of_closing {join : Joining} {n : Nat} {input rest : List Char}
    (h : next input = some (.closeBracket, rest)) : readItems join n input = none := by
  cases n with
  | zero => rfl
  | succ n =>
    have hvalue : readValue join n input = none := by
      cases n with
      | zero => rfl
      | succ n =>
        rw [readValue, h]
        rfl
    rw [readItems, hvalue]
    rfl

/-- A closing brace starts no member. -/
theorem readMembers_of_closing {join : Joining} {n : Nat} {input rest : List Char}
    (h : next input = some (.closeBrace, rest)) : readMembers join n input = none := by
  cases n with
  | zero => rfl
  | succ n =>
    rw [readMembers, readText, h]
    rfl

section Brackets

variable {join : Joining} {n : Nat} {inner rest : List Char}

theorem next_openBracket (inner : List Char) :
    next ('[' :: inner) = some (.openBracket, inner) := next_cons rfl inner

theorem next_openBrace (inner : List Char) :
    next ('\x7b' :: inner) = some (.openBrace, inner) := next_cons rfl inner

theorem readValue_emptyList (h : next inner = some (.closeBracket, rest)) :
    readValue join (n + 1) ('[' :: inner) = some (list [], rest) := by
  rw [readValue, next_openBracket]
  simp [h]

theorem readValue_list {items : List Json} (h : readItems join n inner = some (items, rest)) :
    readValue join (n + 1) ('[' :: inner) = some (list items, rest) := by
  rw [readValue, next_openBracket]
  simp only [Option.bind_eq_bind, Option.bind_some]
  split
  · rename_i hclosing
    rw [readItems_of_closing hclosing] at h
    cases h
  · rw [h]
    rfl

theorem readValue_emptyObject (h : next inner = some (.closeBrace, rest)) :
    readValue join (n + 1) ('\x7b' :: inner) = some (object [], rest) := by
  rw [readValue, next_openBrace]
  simp [h]

theorem readValue_object {members : List (List Char × Json)}
    (h : readMembers join n inner = some (members, rest)) :
    readValue join (n + 1) ('\x7b' :: inner) = some (object members, rest) := by
  rw [readValue, next_openBrace]
  simp only [Option.bind_eq_bind, Option.bind_some]
  split
  · rename_i hclosing
    rw [readMembers_of_closing hclosing] at h
    cases h
  · rw [h]
    rfl

end Brackets

/-- With this count, what spells a value of fewer characters is read as the value. -/
structure ReadsWithin (n : Nat) : Prop where
  value : ∀ {v : Json} {t rest : List Char}, Spells v t → t.length < n → Stops rest →
    readValue joinUnits n (t ++ rest) = some (v, rest)
  items : ∀ {vs : List Json} {t rest : List Char}, SpellsItems vs t → t.length < n →
    readItems joinUnits n (t ++ rest) = some (vs, rest)
  members : ∀ {ms : List (List Char × Json)} {t rest : List Char}, SpellsMembers ms t →
    t.length < n → readMembers joinUnits n (t ++ rest) = some (ms, rest)

section Step

variable {n : Nat} {t rest : List Char}

theorem ReadsWithin.items_succ (h : ReadsWithin n) {items : List Json}
    (hitems : SpellsItems items t) (hlength : t.length < n + 1) :
    readItems joinUnits (n + 1) (t ++ rest) = some (items, rest) := by
  cases hitems with
  | @last item w t w' hw hitem hw' =>
    simp only [List.length_append, List.length_cons] at hlength
    have hvalue : readValue joinUnits n (t ++ (w' ++ ']' :: rest)) =
        some (item, w' ++ ']' :: rest) :=
      h.value hitem (by omega) (Stops.append hw' (stops_cons (by decide) rest))
    have hmark : next (w' ++ ']' :: rest) = some (.closeBracket, rest) := next_mark hw' rfl rfl
    simp only [List.append_assoc, List.cons_append, List.nil_append]
    rw [readItems, readValue_append hw, hvalue]
    simp [hmark]
  | @more item items w t w' ts hw hitem hw' hlater =>
    simp only [List.length_append, List.length_cons] at hlength
    have hvalue : readValue joinUnits n (t ++ (w' ++ ',' :: (ts ++ rest))) =
        some (item, w' ++ ',' :: (ts ++ rest)) :=
      h.value hitem (by omega) (Stops.append hw' (stops_cons (by decide) _))
    have hmark : next (w' ++ ',' :: (ts ++ rest)) = some (.comma, ts ++ rest) :=
      next_mark hw' rfl rfl
    have hrest : readItems joinUnits n (ts ++ rest) = some (items, rest) :=
      h.items hlater (by omega)
    simp only [List.append_assoc, List.cons_append]
    rw [readItems, readValue_append hw, hvalue]
    simp [hmark, hrest]

/-- Behind the name of a member come the colon and the value. -/
theorem ReadsWithin.member (h : ReadsWithin n) {name : List Char} {value : Json}
    (hmember : SpellsMember name value t) (hlength : t.length < n) (hrest : Stops rest) :
    ∃ behindName behindColon, readText joinUnits (t ++ rest) = some (name, behindName) ∧
      expect .colon behindName = some behindColon ∧
      readValue joinUnits n behindColon = some (value, rest) := by
  cases hmember with
  | @mk _ _ w₁ s w₂ w₃ t hw₁ hname hw₂ hw₃ hvalue =>
    simp only [List.length_append, List.length_cons] at hlength
    obtain ⟨units, hjoin, hnext⟩ := next_text hname (w₂ ++ ':' :: (w₃ ++ (t ++ rest)))
    refine ⟨w₂ ++ ':' :: (w₃ ++ (t ++ rest)), w₃ ++ (t ++ rest), ?_,
      expect_of_next (next_mark hw₂ rfl rfl), ?_⟩
    · simp only [List.append_assoc, List.cons_append]
      rw [readText, next_append hw₁, hnext]
      simp only [hjoin, Option.map_some]
    · rw [readValue_append hw₃]
      exact h.value hvalue (by omega) hrest

theorem ReadsWithin.members_succ (h : ReadsWithin n) {members : List (List Char × Json)}
    (hmembers : SpellsMembers members t) (hlength : t.length < n + 1) :
    readMembers joinUnits (n + 1) (t ++ rest) = some (members, rest) := by
  cases hmembers with
  | @last name value w t hmember hw =>
    simp only [List.length_append, List.length_cons] at hlength
    have hstop : Stops (w ++ '\x7d' :: rest) := Stops.append hw (stops_cons (by decide) rest)
    obtain ⟨behindName, behindColon, hname, hcolon, hvalue⟩ := h.member hmember (by omega) hstop
    have hmark : next (w ++ '\x7d' :: rest) = some (.closeBrace, rest) := next_mark hw rfl rfl
    simp only [List.append_assoc, List.cons_append, List.nil_append]
    rw [readMembers, hname]
    simp [hcolon, hvalue, hmark]
  | @more name value members w t ts hmember hw hlater =>
    simp only [List.length_append, List.length_cons] at hlength
    have hstop : Stops (w ++ ',' :: (ts ++ rest)) :=
      Stops.append hw (stops_cons (by decide) (ts ++ rest))
    obtain ⟨behindName, behindColon, hname, hcolon, hvalue⟩ := h.member hmember (by omega) hstop
    have hmark : next (w ++ ',' :: (ts ++ rest)) = some (.comma, ts ++ rest) :=
      next_mark hw rfl rfl
    have hrest : readMembers joinUnits n (ts ++ rest) = some (members, rest) :=
      h.members hlater (by omega)
    simp only [List.append_assoc, List.cons_append]
    rw [readMembers, hname]
    simp [hcolon, hvalue, hmark, hrest]

theorem ReadsWithin.value_succ (h : ReadsWithin n) {v : Json} (hv : Spells v t)
    (hlength : t.length < n + 1) (hrest : Stops rest) :
    readValue joinUnits (n + 1) (t ++ rest) = some (v, rest) := by
  cases hv with
  | null | true | false => rfl
  | number hspelled =>
    rw [readValue, next_numeral hspelled hrest]
    rfl
  | text hspelled =>
    obtain ⟨units, hjoin, hnext⟩ := next_text hspelled rest
    rw [readValue, hnext]
    simp [hjoin]
  | @emptyList w hw =>
    have hclosing : next (w ++ [']'] ++ rest) = some (.closeBracket, rest) := by
      rw [List.append_assoc]
      exact next_mark hw rfl rfl
    exact readValue_emptyList hclosing
  | list hitems =>
    exact readValue_list (h.items hitems (Nat.lt_of_succ_lt_succ hlength))
  | @emptyObject w hw =>
    have hclosing : next (w ++ ['\x7d'] ++ rest) = some (.closeBrace, rest) := by
      rw [List.append_assoc]
      exact next_mark hw rfl rfl
    exact readValue_emptyObject hclosing
  | object hmembers =>
    exact readValue_object (h.members hmembers (Nat.lt_of_succ_lt_succ hlength))

end Step

theorem readsWithin : ∀ n : Nat, ReadsWithin n
  | 0 => ⟨fun _ h => absurd h (Nat.not_lt_zero _), fun _ h => absurd h (Nat.not_lt_zero _),
      fun _ h => absurd h (Nat.not_lt_zero _)⟩
  | n + 1 => ⟨(readsWithin n).value_succ, (readsWithin n).items_succ, (readsWithin n).members_succ⟩

end Json
end OpenScad
