/-
# Records from the members of an object

What a record with numbers in its slots is read from: the members of an object,
each with the numeral that is its value, as it is written. Only the members that
belong to a slot count, whatever the blanks, the order and the other members are
(`Json.decode_object`). Such a text gives a record if and only if every slot
that must be filled is filled by one member, with a numeral that it takes
(`Json.lookup_of_fill`, `Json.exists_fill`).

The value of a member that no slot knows is only passed over. It is read like
any other value, but any elements of a string will do (`Json.skipValue_append`).

Key definitions: `Json.WritesMembers`, `Json.IsObjectOf`, `Json.Shape.fillings`,
`Json.Shape.fill`.
Key theorems: `Json.skipValue_append`, `Json.readObject_members`, `Json.decode_object`,
`Json.lookup_of_fill`, `Json.exists_fill`.
-/
import OpenScad.Json.Record
import OpenScad.Proofs.Json.Reading
import OpenScad.Proofs.Tree.Inversion

namespace OpenScad
namespace Json

/-! ### Values passed over -/

/-- Elements of a string that are not joined. -/
def unjoined : Joining := fun _ => some []

/-- With this count, what is read with strings joined is passed over without. -/
structure PassesOver (n : Nat) : Prop where
  value : ∀ {v : Json} {input rest : List Char}, readValue joinUnits n input = some (v, rest) →
    ∃ w, readValue unjoined n input = some (w, rest)
  items : ∀ {vs : List Json} {input rest : List Char},
    readItems joinUnits n input = some (vs, rest) →
    ∃ ws, readItems unjoined n input = some (ws, rest)
  members : ∀ {ms : List (List Char × Json)} {input rest : List Char},
    readMembers joinUnits n input = some (ms, rest) →
    ∃ ws, readMembers unjoined n input = some (ws, rest)

section Step

variable {n : Nat} {input rest : List Char}

theorem PassesOver.items_succ (h : PassesOver n) {vs : List Json}
    (hread : readItems joinUnits (n + 1) input = some (vs, rest)) :
    ∃ ws, readItems unjoined (n + 1) input = some (ws, rest) := by
  rw [readItems] at hread
  obtain ⟨⟨item, behind⟩, hitem, hread⟩ := Option.bind_eq_some_iff.mp hread
  obtain ⟨w, hw⟩ := h.value hitem
  simp only at hread
  rw [readItems, hw]
  simp only [Option.bind_eq_bind, Option.bind_some]
  split at hread
  · cases hread
    exact ⟨[w], rfl⟩
  · obtain ⟨⟨items, behind⟩, hitems, hread⟩ := Option.bind_eq_some_iff.mp hread
    cases hread
    obtain ⟨ws, hws⟩ := h.items hitems
    exact ⟨w :: ws, by rw [hws]; rfl⟩
  · cases hread

/-- A name is read from the string that comes first, however its elements are joined. -/
theorem readText_unjoined {chars : List Char}
    (hread : readText joinUnits input = some (chars, rest)) :
    readText unjoined input = some ([], rest) := by
  unfold readText at hread ⊢
  split at hread
  · obtain ⟨joined, -, hpair⟩ := Option.map_eq_some_iff.mp hread
    cases hpair
    rfl
  · cases hread

theorem PassesOver.members_succ (h : PassesOver n) {ms : List (List Char × Json)}
    (hread : readMembers joinUnits (n + 1) input = some (ms, rest)) :
    ∃ ws, readMembers unjoined (n + 1) input = some (ws, rest) := by
  rw [readMembers] at hread
  obtain ⟨⟨name, behindName⟩, hname, hread⟩ := Option.bind_eq_some_iff.mp hread
  obtain ⟨behindColon, hcolon, hread⟩ := Option.bind_eq_some_iff.mp hread
  obtain ⟨⟨value, behind⟩, hvalue, hread⟩ := Option.bind_eq_some_iff.mp hread
  obtain ⟨w, hw⟩ := h.value hvalue
  simp only at hread hcolon
  rw [readMembers, readText_unjoined hname]
  simp only [Option.bind_eq_bind, Option.bind_some, hcolon, hw]
  split at hread
  · cases hread
    exact ⟨[([], w)], rfl⟩
  · obtain ⟨⟨members, behind⟩, hmembers, hread⟩ := Option.bind_eq_some_iff.mp hread
    cases hread
    obtain ⟨ws, hws⟩ := h.members hmembers
    exact ⟨([], w) :: ws, by rw [hws]; rfl⟩
  · cases hread

theorem PassesOver.value_succ (h : PassesOver n) {v : Json}
    (hread : readValue joinUnits (n + 1) input = some (v, rest)) :
    ∃ w, readValue unjoined (n + 1) input = some (w, rest) := by
  rw [readValue] at hread
  obtain ⟨⟨token, behind⟩, hnext, hread⟩ := Option.bind_eq_some_iff.mp hread
  rw [readValue, hnext]
  simp only [Option.bind_eq_bind, Option.bind_some]
  cases token with
  | null | boolean | number =>
    cases hread
    exact ⟨_, rfl⟩
  | text units =>
    obtain ⟨chars, -, hread⟩ := Option.bind_eq_some_iff.mp hread
    cases hread
    exact ⟨_, rfl⟩
  | openBracket =>
    simp only at hread ⊢
    split at hread
    · cases hread
      exact ⟨_, rfl⟩
    · obtain ⟨⟨items, behind⟩, hitems, hread⟩ := Option.map_eq_some_iff.mp hread
      cases hread
      obtain ⟨ws, hws⟩ := h.items hitems
      exact ⟨list ws, by rw [hws]; rfl⟩
  | openBrace =>
    simp only at hread ⊢
    split at hread
    · cases hread
      exact ⟨_, rfl⟩
    · obtain ⟨⟨members, behind⟩, hmembers, hread⟩ := Option.map_eq_some_iff.mp hread
      cases hread
      obtain ⟨ws, hws⟩ := h.members hmembers
      exact ⟨object ws, by rw [hws]; rfl⟩
  | closeBrace | closeBracket | colon | comma => cases hread

end Step

theorem passesOver : ∀ n : Nat, PassesOver n
  | 0 => ⟨fun h => (nomatch h), fun h => (nomatch h), fun h => (nomatch h)⟩
  | n + 1 => ⟨(passesOver n).value_succ, (passesOver n).items_succ, (passesOver n).members_succ⟩

/-- **Every value is passed over**, blanks before it included. -/
theorem skipValue_append {v : Json} {w t rest : List Char} (hw : Blank w) (hv : Spells v t)
    (hrest : Stops rest) : skipValue (w ++ (t ++ rest)) = some rest := by
  have hread : readValue joinUnits ((w ++ (t ++ rest)).length + 1) (w ++ (t ++ rest)) =
      some (v, rest) := by
    rw [readValue_append hw]
    refine (readsWithin _).value hv ?_ hrest
    simp only [List.length_append]
    omega
  obtain ⟨u, hu⟩ := (passesOver _).value hread
  rw [skipValue]
  exact congrArg (Option.map (·.2)) hu

/-! ### Members and their numerals -/

/-- The text spells a value, which is the numeral if one is given. -/
inductive Writes : Option Numeral → List Char → Prop where
  | numeral {n : Numeral} {t : List Char} (spelled : n.Spelled t) : Writes (some n) t
  | other {v : Json} {t : List Char} (spelled : Spells v t) : Writes none t

/-- The text spells a member, with blanks before its name and around its colon. -/
inductive WritesMember : List Char → Option Numeral → List Char → Prop where
  | mk {name : List Char} {numeral : Option Numeral} {w₁ s w₂ w₃ t : List Char}
      (before : Blank w₁) (spelled_name : SpellsText name s) (beforeColon : Blank w₂)
      (afterColon : Blank w₃) (writes : Writes numeral t) :
      WritesMember name numeral (w₁ ++ (s ++ (w₂ ++ ':' :: (w₃ ++ t))))

/-- The text spells the members of an object by their names and numerals, and its closing
brace. -/
inductive WritesMembers : List (List Char × Option Numeral) → List Char → Prop where
  | last {name : List Char} {numeral : Option Numeral} {w t : List Char}
      (writes : WritesMember name numeral t) (after : Blank w) :
      WritesMembers [(name, numeral)] (t ++ (w ++ ['\x7d']))
  | more {name : List Char} {numeral : Option Numeral}
      {members : List (List Char × Option Numeral)} {w t ts : List Char}
      (writes : WritesMember name numeral t) (after : Blank w)
      (later : WritesMembers members ts) :
      WritesMembers ((name, numeral) :: members) (t ++ (w ++ ',' :: ts))

/-- The whole text is an object with these members, between blanks. -/
def IsObjectOf (members : List (List Char × Option Numeral)) (input : List Char) : Prop :=
  ∃ w t w', Blank w ∧ WritesMembers members t ∧ Blank w' ∧ input = w ++ '\x7b' :: (t ++ w')

theorem Writes.exists_spells {numeral : Option Numeral} {t : List Char} (h : Writes numeral t) :
    ∃ v, Spells v t := by
  cases h with
  | numeral hspelled => exact ⟨_, .number hspelled⟩
  | other hspelled => exact ⟨_, hspelled⟩

theorem exists_writes {v : Json} {t : List Char} (h : Spells v t) :
    ∃ numeral, Writes numeral t ∧
      ∀ k, v = integer k → ∃ n : Numeral, numeral = some n ∧ n.toJson = integer k := by
  cases h with
  | number hspelled => exact ⟨_, .numeral hspelled, fun k hk => ⟨_, rfl, hk⟩⟩
  | null => exact ⟨none, .other .null, fun k hk => nomatch hk⟩
  | true => exact ⟨none, .other .true, fun k hk => nomatch hk⟩
  | false => exact ⟨none, .other .false, fun k hk => nomatch hk⟩
  | text hspelled => exact ⟨none, .other (.text hspelled), fun k hk => nomatch hk⟩
  | emptyList hblank => exact ⟨none, .other (.emptyList hblank), fun k hk => nomatch hk⟩
  | list hspelled => exact ⟨none, .other (.list hspelled), fun k hk => nomatch hk⟩
  | emptyObject hblank => exact ⟨none, .other (.emptyObject hblank), fun k hk => nomatch hk⟩
  | object hspelled => exact ⟨none, .other (.object hspelled), fun k hk => nomatch hk⟩

/-- The member has this name, and if its value is a whole number, a numeral of it. -/
def Carries (member : List Char × Option Numeral) (original : List Char × Json) : Prop :=
  member.1 = original.1 ∧ ∀ k, original.2 = integer k →
    ∃ n : Numeral, member.2 = some n ∧ n.toJson = integer k

theorem exists_writesMember {name t : List Char} {v : Json} (h : SpellsMember name v t) :
    ∃ numeral, WritesMember name numeral t ∧ Carries (name, numeral) (name, v) := by
  cases h with
  | mk hbefore hname hbeforeColon hafterColon hspelled =>
    obtain ⟨numeral, hwrites, hcarries⟩ := exists_writes hspelled
    exact ⟨numeral, .mk hbefore hname hbeforeColon hafterColon hwrites, rfl, hcarries⟩

theorem exists_writesMembers {originals : List (List Char × Json)} {t : List Char}
    (h : SpellsMembers originals t) :
    ∃ members, WritesMembers members t ∧ List.Forall₂ Carries members originals := by
  induction originals generalizing t with
  | nil => cases h
  | cons original originals ih =>
    cases h with
    | last hmember hafter =>
      obtain ⟨numeral, hwrites, hcarries⟩ := exists_writesMember hmember
      exact ⟨_, .last hwrites hafter, .cons hcarries .nil⟩
    | more hmember hafter hlater =>
      obtain ⟨numeral, hwrites, hcarries⟩ := exists_writesMember hmember
      obtain ⟨members, hmembers, hall⟩ := ih hlater
      exact ⟨_, .more hwrites hafter hmembers, .cons hcarries hall⟩

theorem spellsMembers_of_spells {original : List Char × Json}
    {originals : List (List Char × Json)} {t : List Char}
    (h : Spells (object (original :: originals)) t) :
    ∃ t', SpellsMembers (original :: originals) t' ∧ t = '\x7b' :: t' := by
  generalize hv : object (original :: originals) = v at h
  cases h with
  | object hmembers =>
    cases hv
    exact ⟨_, hmembers, rfl⟩
  | number =>
    unfold Numeral.toJson at hv
    split at hv
    · simp only at hv
      split at hv <;> cases hv
    · cases hv
  | null | true | false | text | emptyList | list | emptyObject => cases hv

/-- A text of an object with members is read by its members and their numerals. -/
theorem exists_isObjectOf {original : List Char × Json} {originals : List (List Char × Json)}
    {input : List Char} (h : IsTextOf (object (original :: originals)) input) :
    ∃ members, IsObjectOf members input ∧
      List.Forall₂ Carries members (original :: originals) := by
  obtain ⟨w, t, w', hw, hspells, hw', rfl⟩ := h
  obtain ⟨t, hmembers, rfl⟩ := spellsMembers_of_spells hspells
  obtain ⟨members, hwrites, hall⟩ := exists_writesMembers hmembers
  exact ⟨members, ⟨w, t, w', hw, hwrites, hw', rfl⟩, hall⟩

/-! ### What the slots are filled with -/

/-- The numerals for the slot of a name. -/
def numeralsOf (name : String) (fillings : List (Slot × Numeral)) : List Numeral :=
  (fillings.filter (·.1.name == name)).map (·.2)

namespace Shape

variable (shape : Shape)

/-- The slot that a member fills, and with which numeral. -/
def filling? (member : List Char × Option Numeral) : Option (Slot × Numeral) := do
  return (← shape.slot? (String.ofList member.1), ← member.2)

/-- The slots that the members fill, in their order. -/
def fillings (members : List (List Char × Option Numeral)) : List (Slot × Numeral) :=
  members.filterMap shape.filling?

/-- The numerals that fill the slot of a name. -/
def numeralsIn (name : String) (members : List (List Char × Option Numeral)) : List Numeral :=
  numeralsOf name (shape.fillings members)

/-- The members that belong to a slot have numerals. -/
def Numeric (members : List (List Char × Option Numeral)) : Prop :=
  ∀ member ∈ members, (shape.slot? (String.ofList member.1)).isSome = true →
    member.2.isSome = true

/-- Fills one more slot. -/
def put (filled : Contents) (filling : Slot × Numeral) : Except RecordError Contents := do
  if (filled.lookup filling.1.name).isSome then throw (.duplicate filling.1.name)
  return (filling.1.name, ← filling.1.want.ofToken (.number filling.2)) :: filled

/-- The contents, once nothing is missing. -/
def complete (filled : Contents) : Except RecordError Contents :=
  match shape.empty? filled with
  | some slot => .error (.missing slot.name)
  | none => .ok filled

/-- Fills the slots in order. -/
def fill : Contents → List (Slot × Numeral) → Except RecordError Contents
  | filled, [] => shape.complete filled
  | filled, filling :: fillings => do fill (← put filled filling) fillings

end Shape

/-! ### Reading the members -/

section Reading

variable {shape : Shape} {filled : Contents} {name t rest : List Char} {numeral : Option Numeral}

/-- Behind the name of a member come the colon, blanks and the value. -/
theorem WritesMember.exists_next (h : WritesMember name numeral t) (rest : List Char) :
    ∃ units behindName w value, joinUnits units = some name ∧
      next (t ++ rest) = some (.text units, behindName) ∧
      expect .colon behindName = some (w ++ (value ++ rest)) ∧ Blank w ∧ Writes numeral value := by
  cases h with
  | @mk w₁ s w₂ w₃ t hw₁ hname hw₂ hw₃ hvalue =>
    obtain ⟨units, hjoin, hnext⟩ := next_text hname (w₂ ++ ':' :: (w₃ ++ (t ++ rest)))
    have hcolon : next (w₂ ++ ':' :: (w₃ ++ (t ++ rest))) = some (.colon, w₃ ++ (t ++ rest)) :=
      next_mark hw₂ rfl rfl
    refine ⟨units, _, w₃, t, hjoin, ?_, expect_of_next hcolon, hw₃, hvalue⟩
    simp only [List.append_assoc, List.cons_append]
    rw [next_append hw₁, hnext]

theorem token_of_next {input : List Char} {found : Token} (h : next input = some (found, rest)) :
    token input = .ok (found, rest) := by
  rw [token, h]

theorem readSlot_of_next {want : Want} {input : List Char} {found : Token}
    (h : next input = some (found, rest)) :
    readSlot want input = (want.ofToken found).map fun content => (content, rest) := by
  rw [readSlot, token_of_next h]
  rfl

theorem WritesMembers.exists_next {members : List (List Char × Option Numeral)}
    (h : WritesMembers members t) (rest : List Char) :
    ∃ units behindName, next (t ++ rest) = some (.text units, behindName) := by
  cases h with
  | last hmember =>
    rw [List.append_assoc]
    obtain ⟨units, behindName, -, -, -, hnext, -⟩ := hmember.exists_next _
    exact ⟨units, behindName, hnext⟩
  | more hmember =>
    rw [List.append_assoc]
    obtain ⟨units, behindName, -, -, -, hnext, -⟩ := hmember.exists_next _
    exact ⟨units, behindName, hnext⟩

/-- A member that fills a slot is read as the content of the slot. -/
theorem readMember_of_filling {filling : Slot × Numeral} {behindName w value : List Char}
    (hfilling : shape.filling? (name, numeral) = some filling)
    (hcolon : expect .colon behindName = some (w ++ (value ++ rest))) (hw : Blank w)
    (hvalue : Writes numeral value) (hrest : Stops rest) :
    readMember shape filled name behindName =
      (Shape.put filled filling).map fun filled => (filled, rest) := by
  obtain ⟨slot, hslot, h⟩ := Option.bind_eq_some_iff.mp hfilling
  obtain ⟨n, hn, h⟩ := Option.bind_eq_some_iff.mp h
  cases h
  simp only at hn
  subst hn
  cases hvalue with
  | numeral hspelled =>
    have hnext : next (w ++ (value ++ rest)) = some (.number n, rest) := by
      rw [next_append hw, next_numeral hspelled hrest]
    simp only [readMember, hslot, hcolon, readSlot_of_next hnext, Shape.put]
    split
    · rfl
    · cases slot.want.ofToken (.number n) <;> rfl

/-- A member that belongs to no slot is passed over. -/
theorem readMember_of_unknown {behindName w value : List Char}
    (hslot : shape.slot? (String.ofList name) = none)
    (hcolon : expect .colon behindName = some (w ++ (value ++ rest))) (hw : Blank w)
    (hvalue : Writes numeral value) (hrest : Stops rest) :
    readMember shape filled name behindName = .ok (filled, rest) := by
  obtain ⟨v, hv⟩ := hvalue.exists_spells
  simp only [readMember, hslot, hcolon, skipValue_append hw hv hrest]
  rfl

/-- The name that comes first is the name of a member. -/
theorem readObject_text {n : Nat} {units : List Unit16} {input : List Char}
    (hnext : next input = some (.text units, rest)) (hjoin : joinUnits units = some name) :
    readObject shape (n + 1) true filled input =
      (readMember shape filled name rest >>= fun member =>
        readObject shape n false member.1 member.2) := by
  rw [readObject, token_of_next hnext]
  simp only [ok_bind, pure_eq_ok, reduceCtorEq, if_false, if_true, hjoin]

/-- Behind a member and a comma the next one is read like the first. -/
theorem readObject_comma {n : Nat} {units : List Unit16} {input inner behindName : List Char}
    (hcomma : next input = some (.comma, inner))
    (hnext : next inner = some (.text units, behindName)) :
    readObject shape n false filled input = readObject shape n true filled inner := by
  cases n with
  | zero => rfl
  | succ n =>
    rw [readObject, readObject, token_of_next hcomma, token_of_next hnext]
    simp only [ok_bind, pure_eq_ok, reduceCtorEq, if_false, if_true,
      token_of_next hnext]

theorem readObject_closing {n : Nat} {first : Bool} {input : List Char}
    (h : next input = some (.closeBrace, rest)) :
    readObject shape (n + 1) first filled input =
      (shape.complete filled).map fun filled => (filled, rest) := by
  rw [readObject, token_of_next h, Shape.complete]
  simp only [ok_bind, if_true]
  cases shape.empty? filled <;> rfl

/-- A member in front of what stops its value, and the members behind it. -/
theorem readObject_member {n : Nat} (h : WritesMember name numeral t) (hrest : Stops rest)
    (hnumeric : (shape.slot? (String.ofList name)).isSome = true → numeral.isSome = true) :
    readObject shape (n + 1) true filled (t ++ rest) =
      ((shape.filling? (name, numeral)).elim (.ok filled) (Shape.put filled) >>=
        fun filled => readObject shape n false filled rest) := by
  obtain ⟨units, behindName, w, value, hjoin, hnext, hcolon, hw, hvalue⟩ := h.exists_next rest
  rw [readObject_text hnext hjoin]
  cases hslot : shape.slot? (String.ofList name) with
  | none =>
    have hfilling : shape.filling? (name, numeral) = none := by simp [Shape.filling?, hslot]
    rw [readMember_of_unknown hslot hcolon hw hvalue hrest, hfilling]
    rfl
  | some slot =>
    obtain ⟨m, hm⟩ := Option.isSome_iff_exists.mp (hnumeric (by rw [hslot]; rfl))
    have hfilling : shape.filling? (name, numeral) = some (slot, m) := by
      simp [Shape.filling?, hslot, hm]
    rw [readMember_of_filling hfilling hcolon hw hvalue hrest, hfilling, Option.elim_some]
    cases Shape.put filled (slot, m) <;> rfl

/-- A member fills its slot before the members behind it fill theirs. -/
theorem Shape.fill_fillings_cons (member : List Char × Option Numeral)
    (members : List (List Char × Option Numeral)) :
    shape.fill filled (shape.fillings (member :: members)) =
      ((shape.filling? member).elim (.ok filled) (put filled) >>=
        fun filled => shape.fill filled (shape.fillings members)) := by
  cases hfilling : shape.filling? member with
  | none =>
    rw [fillings, List.filterMap_cons_none hfilling]
    rfl
  | some filling =>
    rw [fillings, List.filterMap_cons_some hfilling]
    rfl

/-- **The members of an object are read as what fills the slots**, up to the closing brace. -/
theorem readObject_members {members : List (List Char × Option Numeral)}
    (h : WritesMembers members t) (hnumeric : shape.Numeric members) {n : Nat} (rest : List Char)
    (hlength : t.length < n) :
    readObject shape n true filled (t ++ rest) =
      (shape.fill filled (shape.fillings members)).map fun filled => (filled, rest) := by
  induction h generalizing n filled with
  | @last name numeral w t hmember hw =>
    simp only [List.length_append, List.length_singleton] at hlength
    obtain ⟨n, rfl⟩ : ∃ k, n = k + 2 := ⟨n - 2, by omega⟩
    have hstop : Stops (w ++ '\x7d' :: rest) := Stops.append hw (stops_cons (by decide) rest)
    have hmark : next (w ++ '\x7d' :: rest) = some (.closeBrace, rest) := next_mark hw rfl rfl
    simp only [List.append_assoc, List.cons_append, List.nil_append]
    rw [readObject_member hmember hstop (hnumeric _ List.mem_cons_self), Shape.fill_fillings_cons]
    cases (shape.filling? (name, numeral)).elim (.ok filled) (Shape.put filled) with
    | error => rfl
    | ok filled => exact readObject_closing hmark
  | @more name numeral members w t ts hmember hw hlater ih =>
    simp only [List.length_append, List.length_cons] at hlength
    obtain ⟨n, rfl⟩ : ∃ k, n = k + 1 := ⟨n - 1, by omega⟩
    have hstop : Stops (w ++ ',' :: (ts ++ rest)) :=
      Stops.append hw (stops_cons (by decide) (ts ++ rest))
    have hmark : next (w ++ ',' :: (ts ++ rest)) = some (.comma, ts ++ rest) :=
      next_mark hw rfl rfl
    obtain ⟨units, behindName, hnext⟩ := hlater.exists_next rest
    simp only [List.append_assoc, List.cons_append]
    rw [readObject_member hmember hstop (hnumeric _ List.mem_cons_self), Shape.fill_fillings_cons]
    cases (shape.filling? (name, numeral)).elim (.ok filled) (Shape.put filled) with
    | error => rfl
    | ok filled =>
      change readObject shape n false filled (w ++ ',' :: (ts ++ rest)) = _
      rw [readObject_comma hmark hnext]
      exact ih (fun member hmem => hnumeric member (List.mem_cons_of_mem _ hmem)) (by omega)

/-- **A record is what the members of an object fill its slots with**, whatever the blanks are,
if all of them that belong to a slot are numerals. -/
theorem decode_object {α : Type} {members : List (List Char × Option Numeral)}
    {input : List Char} (h : IsObjectOf members input) (hnumeric : shape.Numeric members)
    (build : Contents → Except RecordError α) :
    decode shape build input = (shape.fill [] (shape.fillings members) >>= build) := by
  obtain ⟨w, t, w', hw, hmembers, hw', rfl⟩ := h
  have hbrace : next (w ++ '\x7b' :: (t ++ w')) = some (.openBrace, t ++ w') :=
    next_mark hw rfl rfl
  have hblank : (skipBlanks w').isEmpty = true := by
    rw [← List.append_nil w', skipBlanks_append hw']
    rfl
  have hlength : t.length < (t ++ w').length + 1 := by
    simp only [List.length_append]
    omega
  rw [decode, readRecord, token_of_next hbrace]
  simp only [ok_bind, readObject_members hmembers hnumeric w' hlength]
  cases shape.fill [] (shape.fillings members) with
  | error => rfl
  | ok contents =>
    simp only [Except.map, ok_bind, hblank, if_true]
    cases build contents <;> rfl

end Reading

/-! ### Filled slots -/

section Filled

variable {shape : Shape} {filled contents : Contents} {fillings : List (Slot × Numeral)}

theorem numeralsOf_cons_self (filling : Slot × Numeral) (fillings : List (Slot × Numeral)) :
    numeralsOf filling.1.name (filling :: fillings) =
      filling.2 :: numeralsOf filling.1.name fillings := by
  simp [numeralsOf]

theorem numeralsOf_cons_of_ne {name : String} {filling : Slot × Numeral}
    (h : filling.1.name ≠ name) (fillings : List (Slot × Numeral)) :
    numeralsOf name (filling :: fillings) = numeralsOf name fillings := by
  simp [numeralsOf, h]

/-- What stands under a name is the numeral of a filling with that name. -/
theorem mem_numeralsOf_iff {name : String} {n : Numeral} :
    n ∈ numeralsOf name fillings ↔ ∃ filling ∈ fillings, filling.1.name = name ∧ filling.2 = n := by
  simp [numeralsOf, and_assoc]

theorem lookup_cons_of_ne {name other : String} (h : other ≠ name) (content : Content) :
    List.lookup name ((other, content) :: filled) = filled.lookup name := by
  rw [List.lookup_cons, beq_false_of_ne (Ne.symm h)]

theorem Shape.put_eq_ok_iff {filling : Slot × Numeral} :
    put filled filling = .ok contents ↔ filled.lookup filling.1.name = none ∧
      ∃ content, filling.1.want.ofToken (.number filling.2) = .ok content ∧
        contents = (filling.1.name, content) :: filled := by
  unfold put
  cases hlookup : filled.lookup filling.1.name with
  | some => simp
  | none =>
    cases filling.1.want.ofToken (.number filling.2) <;>
      simp [eq_comm]

theorem Shape.complete_eq_ok_iff :
    shape.complete filled = .ok contents ↔ shape.empty? filled = none ∧ contents = filled := by
  unfold complete
  cases shape.empty? filled <;> simp [eq_comm]

theorem Shape.mem_slots_of_mem_fillings {members : List (List Char × Option Numeral)}
    {filling : Slot × Numeral} (h : filling ∈ shape.fillings members) :
    filling.1 ∈ shape.slots := by
  obtain ⟨member, -, hfilling⟩ := List.mem_filterMap.mp h
  obtain ⟨slot, hslot, hfilling⟩ := Option.bind_eq_some_iff.mp hfilling
  obtain ⟨n, -, hfilling⟩ := Option.bind_eq_some_iff.mp hfilling
  cases hfilling
  exact List.mem_of_find?_eq_some hslot

/-- Nothing is missing once all slots are filled. -/
theorem Shape.lookup_isSome_of_fill (h : shape.fill filled fillings = .ok contents) {slot : Slot}
    (hslot : slot ∈ shape.slots) (hwant : slot.want ≠ .optionalText) :
    (contents.lookup slot.name).isSome = true := by
  induction fillings generalizing filled with
  | nil =>
    obtain ⟨hempty, rfl⟩ := complete_eq_ok_iff.mp h
    have hnone := List.find?_eq_none.mp hempty slot hslot
    simpa [hwant, Option.isSome_iff_ne_none] using hnone
  | cons filling fillings ih =>
    obtain ⟨filled', -, hfill⟩ := exists_of_bind_eq_ok h
    exact ih hfill

/-- Under a name stands what was there, or the content of the one numeral that fills its slot. -/
theorem Shape.lookup_of_fill (h : shape.fill filled fillings = .ok contents) (name : String) :
    (numeralsOf name fillings = [] ∧ contents.lookup name = filled.lookup name) ∨
      filled.lookup name = none ∧ ∃ filling ∈ fillings, ∃ content, filling.1.name = name ∧
        numeralsOf name fillings = [filling.2] ∧
        filling.1.want.ofToken (.number filling.2) = .ok content ∧
        contents.lookup name = some content := by
  induction fillings generalizing filled with
  | nil =>
    obtain ⟨-, rfl⟩ := complete_eq_ok_iff.mp h
    exact .inl ⟨rfl, rfl⟩
  | cons filling fillings ih =>
    obtain ⟨filled', hput, hfill⟩ := exists_of_bind_eq_ok h
    obtain ⟨hnone, content, hcontent, rfl⟩ := put_eq_ok_iff.mp hput
    by_cases hname : filling.1.name = name
    · subst hname
      rcases ih hfill with ⟨hnumerals, hlookup⟩ | ⟨hlookup, -⟩
      · refine .inr ⟨hnone, filling, List.mem_cons_self, content, rfl, ?_, hcontent, ?_⟩
        · rw [numeralsOf_cons_self, hnumerals]
        · rw [hlookup, List.lookup_cons_self]
      · rw [List.lookup_cons_self] at hlookup
        cases hlookup
    · have hlater := ih hfill
      rw [lookup_cons_of_ne hname] at hlater
      rw [numeralsOf_cons_of_ne hname]
      refine hlater.imp_right fun ⟨hlookup, other, hmem, hother⟩ => ?_
      exact ⟨hlookup, other, List.mem_cons_of_mem _ hmem, hother⟩

/-- Slots are filled if each numeral is the only one for its slot and is taken there, and
nothing is missing. -/
theorem Shape.exists_fill (hnew : ∀ filling ∈ fillings, filled.lookup filling.1.name = none)
    (honly : ∀ filling ∈ fillings, numeralsOf filling.1.name fillings = [filling.2])
    (htaken : ∀ filling ∈ fillings, ∃ content,
      filling.1.want.ofToken (.number filling.2) = .ok content)
    (hmissing : ∀ slot ∈ shape.slots, (filled.lookup slot.name).isSome = true ∨
      ∃ filling ∈ fillings, filling.1.name = slot.name) :
    ∃ contents, shape.fill filled fillings = .ok contents := by
  induction fillings generalizing filled with
  | nil =>
    have hempty : shape.empty? filled = none := by
      refine List.find?_eq_none.mpr fun slot hslot => ?_
      have hfilled := (hmissing slot hslot).resolve_right fun ⟨_, hmem, _⟩ => by cases hmem
      simp [Option.isNone_iff_eq_none, Option.isSome_iff_ne_none.mp hfilled]
    exact ⟨filled, complete_eq_ok_iff.mpr ⟨hempty, rfl⟩⟩
  | cons filling fillings ih =>
    obtain ⟨content, hcontent⟩ := htaken filling List.mem_cons_self
    have hput : put filled filling = .ok ((filling.1.name, content) :: filled) :=
      put_eq_ok_iff.mpr ⟨hnew filling List.mem_cons_self, content, hcontent, rfl⟩
    have hne : ∀ other ∈ fillings, filling.1.name ≠ other.1.name := by
      intro other hmem hname
      have hnumerals := honly filling List.mem_cons_self
      rw [numeralsOf_cons_self, List.cons_eq_cons] at hnumerals
      have hother := mem_numeralsOf_iff.mpr ⟨other, hmem, hname.symm, rfl⟩
      rw [hnumerals.2] at hother
      cases hother
    rw [fill, hput]
    refine ih (fun other hmem => ?_) (fun other hmem => ?_)
      (fun other hmem => htaken other (List.mem_cons_of_mem _ hmem)) fun slot hslot => ?_
    · rw [lookup_cons_of_ne (hne other hmem)]
      exact hnew other (List.mem_cons_of_mem _ hmem)
    · rw [← numeralsOf_cons_of_ne (hne other hmem)]
      exact honly other (List.mem_cons_of_mem _ hmem)
    · by_cases hname : filling.1.name = slot.name
      · left
        rw [← hname, List.lookup_cons_self]
        rfl
      · rw [lookup_cons_of_ne hname]
        refine (hmissing slot hslot).imp_right fun ⟨other, hmem, hother⟩ => ⟨other, ?_, hother⟩
        refine (List.mem_cons.mp hmem).resolve_left fun heq => hname ?_
        rw [← heq, hother]

end Filled

end Json
end OpenScad
