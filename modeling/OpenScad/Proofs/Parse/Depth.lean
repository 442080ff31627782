/-
# Depth of matches

The nesting check bounds how many brackets and prefix operators stand around a
token, and with them the rules around it. It does not count binary operators: a
chain of them groups to the left, so that each one makes the match a level
deeper. So what the check leaves open is how many operators one statement has
(`mostOperators`). The match of a program that passes the check has at most 831
levels more than that, and for every number of operators some program has as
many (`exists_deepest`). Hence 2000 levels are enough for all programs with at
most 1169 operators in a statement, and for no greater number (`depth_le_iff`).

The bound is by induction on the phrase, for the number of brackets that may
still be opened. Each of them gives room for the rules of an expression, and for
as many prefix operators as there are free brackets before it.

Key definitions: `Grammar.mostOperators`, `Grammar.primaryRoom`,
`Grammar.tower`.
Key theorems: `Grammar.Parses.depth_le`, `Grammar.exists_deepest`,
`Grammar.depth_le_iff`.
-/
import Mathlib.Data.List.TakeWhile
import OpenScad.Proofs.Grammar.Unambiguous
import OpenScad.Proofs.Parse.Nesting

namespace OpenScad
namespace Grammar

/-! ### Binary operators -/

/-- How many of the tokens can be binary operators. -/
def operatorCount (ls : List Lexeme) : Nat := ls.countP fun l => l.kind ∈ levels.flatten

/-- The greatest number of operators without a semicolon between them. -/
def mostOperators : List Lexeme → Nat
  | [] => 0
  | l :: ls =>
    max (operatorCount ((l :: ls).takeWhile fun l => l.kind ≠ .semicolon)) (mostOperators ls)

variable {l : Lexeme} {u v : List Lexeme}

theorem operatorCount_append (u v : List Lexeme) :
    operatorCount (u ++ v) = operatorCount u + operatorCount v :=
  List.countP_append

theorem operatorCount_le_cons (l : Lexeme) (u : List Lexeme) :
    operatorCount u ≤ operatorCount (l :: u) :=
  (List.sublist_cons_self l u).countP_le

theorem mem_levels_of_operators {k : Nat} (h : l.kind ∈ operators k) : l.kind ∈ levels.flatten := by
  have hlevels : ∀ k < 6, ∀ kind ∈ operators k, kind ∈ levels.flatten := by decide
  exact hlevels k (lt_of_mem_operators h) _ h

theorem operatorCount_operator {k : Nat} (h : l.kind ∈ operators k) (u : List Lexeme) :
    operatorCount (l :: u) = operatorCount u + 1 :=
  List.countP_cons_of_pos (by simpa using mem_levels_of_operators h)

theorem mostOperators_le_operatorCount (u : List Lexeme) : mostOperators u ≤ operatorCount u := by
  induction u with
  | nil => exact Nat.le_refl _
  | cons l u ih =>
    exact Nat.max_le.mpr ⟨(List.takeWhile_sublist _).countP_le,
      Nat.le_trans ih (operatorCount_le_cons l u)⟩

theorem mostOperators_le_cons (l : Lexeme) (u : List Lexeme) :
    mostOperators u ≤ mostOperators (l :: u) :=
  Nat.le_max_right _ _

theorem mostOperators_le_behind (u v : List Lexeme) : mostOperators v ≤ mostOperators (u ++ v) := by
  induction u with
  | nil => exact Nat.le_refl _
  | cons l u ih => exact Nat.le_trans ih (mostOperators_le_cons l (u ++ v))

theorem mostOperators_le_append (u v : List Lexeme) : mostOperators u ≤ mostOperators (u ++ v) := by
  induction u with
  | nil => exact Nat.zero_le _
  | cons l u ih =>
    have hfront : ((l :: u).takeWhile fun l => l.kind ≠ .semicolon).Sublist
        ((l :: u ++ v).takeWhile fun l => l.kind ≠ .semicolon) := by
      rw [List.takeWhile_append]
      split
      · exact (List.takeWhile_sublist _).trans (List.sublist_append_left _ _)
      · exact List.Sublist.refl _
    exact Nat.max_le.mpr ⟨Nat.le_trans hfront.countP_le (Nat.le_max_left _ _),
      Nat.le_trans ih (Nat.le_max_right _ _)⟩

theorem operatorCount_le_mostOperators (h : ∀ l ∈ u, l.kind ≠ .semicolon) :
    operatorCount u ≤ mostOperators u := by
  cases u with
  | nil => exact Nat.le_refl _
  | cons l u =>
    have hwhole : ((l :: u).takeWhile fun l => l.kind ≠ .semicolon) = l :: u :=
      List.takeWhile_eq_self_iff.mpr fun x hx => by simpa using h x hx
    rw [mostOperators, hwhole]
    exact Nat.le_max_left _ _

/-- There are no semicolons inside an expression. -/
theorem Parses.no_semicolon {n : Nonterminal} {m : Match} (h : Parses n u m)
    (hn : n ≠ .statement) : ∀ l ∈ u, l.kind ≠ .semicolon := by
  induction h with
  | literal rule =>
    have hkinds : ∀ kind ∈ literalRules.map (·.1), kind ≠ .semicolon := by decide
    exact List.forall_mem_singleton.mpr (hkinds _ (kind_mem_of_rule rule))
  | parentheses opening _ closing ih =>
    refine List.forall_mem_cons.mpr ⟨?_, List.forall_mem_append.mpr ⟨ih (by simp),
      List.forall_mem_singleton.mpr ?_⟩⟩
    · rw [opening]
      decide
    · rw [closing]
      decide
  | operand _ ih => exact ih (by simp)
  | unary sign _ ih =>
    have hkinds : ∀ kind ∈ prefixes, kind ≠ .semicolon := by decide
    exact List.forall_mem_cons.mpr ⟨hkinds _ sign, ih (by simp)⟩
  | tighter _ ih => exact ih (by simp)
  | binary _ sign _ ihl ihr =>
    have hkinds : ∀ kind ∈ levels.flatten, kind ≠ .semicolon := by decide
    exact List.forall_mem_append.mpr ⟨ihl (by simp), List.forall_mem_cons.mpr
      ⟨hkinds _ (mem_levels_of_operators sign), ihr (by simp)⟩⟩
  | assignment => exact absurd rfl hn
  | path => exact absurd rfl hn
  | block => exact absurd rfl hn
  | comment => exact absurd rfl hn

/-! ### The bound -/

/-- How deep the match of a primary without binary operators can be where so many brackets may
still be opened: one of them is opened for an expression. -/
@[simp]
def primaryRoom : Nat → Nat
  | 0 => 3
  | free + 1 => primaryRoom free + free + 9

theorem three_le_primaryRoom (free : Nat) : 3 ≤ primaryRoom free := by
  cases free with
  | zero => exact Nat.le_refl _
  | succ free => exact Nat.le_add_left_of_le (by decide)

/-- How deep the match of a phrase without binary operators can be where so many brackets may
still be opened. -/
@[simp]
def room : Nonterminal → Nat → Nat
  | .primary, free => primaryRoom free
  | .level k, free => primaryRoom free + free + k + 1
  | .statement, free => primaryRoom free + free + 10

/-- How many levels the operators of a phrase may add. -/
@[simp]
def operatorLevels : Nonterminal → List Lexeme → Nat
  | .primary, u => operatorCount u
  | .level _, u => operatorCount u
  | .statement, u => mostOperators u

/-- The prefix operators of which a phrase is the operand. -/
@[simp]
def pendingRun : Nonterminal → Nat → Nat
  | .level 0, run => run
  | _, _ => 0

@[simp]
theorem depth_ofOption (semicolon : Option Lexeme) :
    (Match.ofOption (semicolon.map (.token ·.token))).depth = 1 := by
  cases semicolon <;> rfl

/-- Statements one behind the other keep the bound that each of them keeps. -/
theorem depthAll_parts_le {parts : List (List Lexeme × Match)} {b free : Nat}
    (hparts : ∀ x ∈ parts, Parses .statement x.1 x.2)
    (h : ∀ x ∈ parts, (Nesting.mk b 0).Fits x.1 →
      x.2.depth ≤ room .statement free + mostOperators x.1)
    (hfits : (Nesting.mk b 0).Fits (parts.map (·.1)).flatten) :
    Match.depthAll (parts.map (·.2)) ≤
      room .statement free + mostOperators (parts.map (·.1)).flatten := by
  induction parts with
  | nil => exact Nat.zero_le _
  | cons x parts ih =>
    rw [List.map_cons, List.flatten_cons, Nesting.fits_append,
      (hparts x List.mem_cons_self).nesting_after] at hfits
    have first := h x List.mem_cons_self hfits.1
    have later := ih (fun y hy => hparts y (List.mem_cons_of_mem x hy))
      (fun y hy => h y (List.mem_cons_of_mem x hy)) hfits.2
    have hfront := mostOperators_le_append x.1 (parts.map (·.1)).flatten
    have hbehind := mostOperators_le_behind x.1 (parts.map (·.1)).flatten
    rw [List.map_cons, List.map_cons, List.flatten_cons, Match.depthAll]
    omega

/-- The match of a phrase is not deeper than the brackets that may still be opened, the prefix
operators before it and the operators in it allow. -/
theorem Parses.depth_le {n : Nonterminal} {u : List Lexeme} {m : Match} (h : Parses n u m) :
    ∀ (nesting : Nesting) (free : Nat), nesting.brackets + free = Nesting.limit →
      nesting.levels ≤ Nesting.limit → nesting.Fits u →
      m.depth + pendingRun n nesting.run ≤ room n free + operatorLevels n u := by
  induction h with
  | literal rule =>
    intro nesting free _ _ _
    have hroom := three_le_primaryRoom free
    simp
    omega
  | @parentheses o c u m opening _ closing ih =>
    intro nesting free hfree _ hfits
    rw [Nesting.fits_cons, opening, Nesting.next_opening (by decide), Nesting.fits_append] at hfits
    obtain ⟨hopen, hinner, -⟩ := hfits
    have hlevels := hopen
    simp only [Nesting.levels] at hlevels
    cases free with
    | zero => omega
    | succ free =>
      have inner := ih _ free (by simp only; omega) hopen hinner
      have hcount := operatorCount_le_cons o (u ++ [c])
      rw [operatorCount_append] at hcount
      simp at inner ⊢
      omega
  | operand _ ih =>
    intro nesting free hfree hlevels hfits
    have inner := ih nesting free hfree hlevels hfits
    simp only [Nesting.levels] at hlevels
    simp at inner ⊢
    omega
  | @unary o u m sign _ ih =>
    intro nesting free hfree hlevels hfits
    rw [Nesting.fits_cons, Nesting.next_sign sign] at hfits
    have inner := ih ⟨nesting.brackets, nesting.run + 1⟩ free hfree hfits.1 hfits.2
    have hcount := operatorCount_le_cons o u
    have hroom := three_le_primaryRoom free
    have hrun : nesting.brackets + (nesting.run + 1) ≤ Nesting.limit := hfits.1
    simp at inner ⊢
    omega
  | @tighter k u m _ ih =>
    intro nesting free hfree hlevels hfits
    have inner := ih nesting free hfree hlevels hfits
    simp at inner ⊢
    omega
  | @binary k u v o a b left sign right ihl ihr =>
    intro nesting free hfree hlevels hfits
    rw [Nesting.fits_append, Nesting.fits_cons] at hfits
    obtain ⟨hfront, hoperator, hbehind⟩ := hfits
    have hbrackets : ((nesting.after u).next o.kind).brackets = nesting.brackets := by
      have := (left.binary sign right).nesting_after nesting
      rw [Nesting.after_append, Nesting.after_cons, right.nesting_after] at this
      exact (Nesting.mk.inj this).1
    have hleft := ihl nesting free hfree hlevels hfront
    have hright := ihr _ free (by rw [hbrackets]; exact hfree) hoperator hbehind
    simp at hleft hright ⊢
    rw [operatorCount_append, operatorCount_operator sign]
    omega
  | @assignment name equals semicolon u m name_kind equals_kind value semicolon_kind ih =>
    intro nesting free hfree _ hfits
    rw [Nesting.fits_cons, Nesting.fits_cons, Nesting.fits_append, name_kind, equals_kind,
      Nesting.next_plain (by decide), Nesting.next_plain (by decide)] at hfits
    have inner := ih ⟨nesting.brackets, 0⟩ free hfree hfits.2.1 hfits.2.2.1
    have hcount : operatorCount u ≤ mostOperators (name :: equals :: (u ++ [semicolon])) :=
      calc operatorCount u
        _ ≤ mostOperators u := operatorCount_le_mostOperators (value.no_semicolon (by simp))
        _ ≤ mostOperators (u ++ [semicolon]) := mostOperators_le_append u _
        _ ≤ mostOperators (equals :: (u ++ [semicolon])) := mostOperators_le_cons equals _
        _ ≤ mostOperators (name :: equals :: (u ++ [semicolon])) := mostOperators_le_cons name _
    simp at inner ⊢
    omega
  | path =>
    intro nesting free _ _ _
    simp
    omega
  | @block o c parts opening statements closing ih =>
    intro nesting free hfree _ hfits
    rw [Nesting.fits_cons, opening, Nesting.next_opening (by decide), Nesting.fits_append] at hfits
    obtain ⟨hopen, hinner, -⟩ := hfits
    have hlevels := hopen
    simp only [Nesting.levels] at hlevels
    cases free with
    | zero => omega
    | succ free =>
      have each : ∀ x ∈ parts, (Nesting.mk (nesting.brackets + 1) 0).Fits x.1 →
          x.2.depth ≤ room .statement free + mostOperators x.1 := fun x hx hfits =>
        ih x hx _ free (by simp only; omega) hopen hfits
      have inner := depthAll_parts_le statements each hinner
      have hcount : mostOperators (parts.map (·.1)).flatten ≤
          mostOperators (o :: ((parts.map (·.1)).flatten ++ [c])) :=
        Nat.le_trans (mostOperators_le_append _ _) (mostOperators_le_cons o _)
      simp at inner ⊢
      omega
  | comment =>
    intro nesting free _ _ _
    simp
    omega

/-- What passes the check has at most 831 levels more than operators in a statement. -/
theorem depth_le_of_fits {ls : List Lexeme} {m : Match} (hfits : Nesting.tooDeep? ls = none)
    (h : program.run ls = .ok m) : m.depth ≤ mostOperators ls + 831 := by
  obtain ⟨parts, hparts, rfl, rfl⟩ := program_sound h
  have hroom : room .statement 32 = 829 := by decide
  have each : ∀ x ∈ parts, (Nesting.mk 0 0).Fits x.1 →
      x.2.depth ≤ room .statement 32 + mostOperators x.1 := fun x hx hx' =>
    (hparts x hx).depth_le _ 32 rfl (by decide) hx'
  have := depthAll_parts_le hparts each hfits
  simp
  omega

/-! ### Deep programs -/

/-- A token of a kind with a value. -/
def valued (kind : TokenKind) (value : String) : Lexeme :=
  { kind, token := { value, line := 1, column := 1, offset := 0 } }

/-- So many prefix operators. -/
def signs (n : Nat) : List Lexeme := List.replicate n (valued .bang "!")

/-- An operand with as many prefix operators and brackets around it as may still be there. -/
def tower : Nat → List Lexeme
  | 0 => [valued .number "1"]
  | free + 1 =>
    signs (free + 1) ++ (valued .openParen "(" :: (tower free ++ [valued .closeParen ")"]))

/-- The tokens of so many operators and ones. -/
def ones (n : Nat) : List Lexeme :=
  (List.replicate n [valued .plus "+", valued .number "1"]).flatten

/-- The tokens of an assignment of a sum: an operand and so many ones. -/
def sum (operand : List Lexeme) (n : Nat) : List Lexeme :=
  valued .identifier "x" :: valued .assign "=" :: (operand ++ ones n ++ [valued .semicolon ";"])

theorem ones_succ (n : Nat) : ones (n + 1) = ones n ++ [valued .plus "+", valued .number "1"] := by
  rw [ones, List.replicate_succ', List.flatten_append, List.flatten_singleton]
  rfl

section Operand

variable {m : Match}

/-- Every prefix operator makes the match of its operand a level deeper. -/
theorem parses_signs (h : Parses (.level 0) u m) (hm : 2 ≤ m.depth) : ∀ n : Nat,
    ∃ m', Parses (.level 0) (signs n ++ u) m' ∧ m'.depth = m.depth + n
  | 0 => ⟨m, h, rfl⟩
  | n + 1 => by
    obtain ⟨m', hm', hdepth⟩ := parses_signs h hm n
    have bang : (valued .bang "!").kind ∈ prefixes := by decide
    refine ⟨_, hm'.unary bang, ?_⟩
    simp [hdepth]
    omega

/-- Every operator of a sum makes its match a level deeper. -/
theorem parses_ones (h : Parses (.level 2) u m) (hm : 5 ≤ m.depth) : ∀ n : Nat,
    ∃ m', Parses (.level 2) (u ++ ones n) m' ∧ m'.depth = m.depth + n
  | 0 => ⟨m, by simpa [ones] using h, rfl⟩
  | n + 1 => by
    obtain ⟨left, hleft, hdepth⟩ := parses_ones h hm n
    have right : Parses (.level 1) [valued .number "1"] _ :=
      .tighter (.operand (.literal (r := .number) (by decide)))
    have plus : (valued .plus "+").kind ∈ operators 1 := by decide
    have hsum := hleft.binary plus right
    rw [List.append_assoc, ← ones_succ] at hsum
    refine ⟨_, hsum, ?_⟩
    simp [hdepth]
    omega

theorem exists_run_sum (h : Parses (.level 0) u m) (hm : 3 ≤ m.depth) (n : Nat) :
    ∃ m', program.run (sum u n) = .ok m' ∧ m'.depth = m.depth + n + 11 := by
  obtain ⟨m', hm', hdepth⟩ := parses_ones h.tighter.tighter
    (by simp; omega) n
  have value : Parses .expression _ _ := hm'.tighter.tighter.tighter.tighter
  have statement := @Parses.assignment (valued .identifier "x") (valued .assign "=")
    (valued .semicolon ";") _ _ rfl rfl value rfl
  have program : IsProgram (sum u n) _ := ⟨[(_, _)], by simpa using statement, by simp [sum], rfl⟩
  refine ⟨_, program.run_eq, ?_⟩
  simp [hdepth]
  omega

/-- No bracket opens behind the operand of a sum, and no run has more than one operator. -/
theorem sum_fits (h : Parses (.level 0) u m) (hu : (Nesting.mk 0 0).Fits u) (n : Nat) :
    Nesting.tooDeep? (sum u n) = none := by
  have behind : ∀ n, (Nesting.mk 0 0).Fits (ones n ++ [valued .semicolon ";"]) := by
    intro n
    induction n with
    | zero => rfl
    | succ n ih =>
      rw [ones, List.replicate_succ, List.flatten_cons, List.append_assoc]
      exact ih
  have value : (Nesting.mk 0 0).Fits (u ++ ones n ++ [valued .semicolon ";"]) := by
    rw [List.append_assoc, Nesting.fits_append, h.nesting_after]
    exact ⟨hu, behind n⟩
  exact value

end Operand

theorem parses_tower : ∀ free : Nat,
    ∃ m, Parses (.level 0) (tower free) m ∧ m.depth = room (.level 0) free
  | 0 => ⟨_, .operand (.literal (r := .number) (by decide)), rfl⟩
  | free + 1 => by
    obtain ⟨m, hm, hdepth⟩ := parses_tower free
    have inner : Parses .expression _ _ := hm.tighter.tighter.tighter.tighter.tighter.tighter
    have primary := @Parses.parentheses (valued .openParen "(") (valued .closeParen ")") _ _ rfl
      inner rfl
    obtain ⟨m', hm', hdepth'⟩ := parses_signs primary.operand
      (by simp) (free + 1)
    refine ⟨m', hm', ?_⟩
    rw [hdepth']
    simp [hdepth]
    omega

theorem signs_fit (n : Nat) {nesting : Nesting} (h : nesting.levels + n ≤ Nesting.limit) :
    nesting.Fits (signs n) ∧
      nesting.after (signs n) = { brackets := nesting.brackets, run := nesting.run + n } := by
  induction n generalizing nesting with
  | zero => exact ⟨rfl, rfl⟩
  | succ n ih =>
    have hnext : nesting.next (valued .bang "!").kind =
        { brackets := nesting.brackets, run := nesting.run + 1 } := Nesting.next_sign (by decide)
    simp only [Nesting.levels] at h
    have hlevels : (nesting.next (valued .bang "!").kind).levels + n ≤ Nesting.limit := by
      rw [hnext]
      simp only [Nesting.levels]
      omega
    obtain ⟨hfits, hafter⟩ := ih hlevels
    rw [signs, List.replicate_succ, Nesting.fits_cons, Nesting.after_cons]
    refine ⟨⟨Nat.le_trans (Nat.le_add_right _ n) hlevels, hfits⟩, ?_⟩
    rw [← signs, hafter, hnext, Nat.add_assoc, Nat.add_comm 1]

theorem tower_fits : ∀ {b free : Nat}, b + free = Nesting.limit → (Nesting.mk b 0).Fits (tower free)
  | b, 0, h => by
    have hlevels : b ≤ Nesting.limit := by omega
    exact Nesting.fits_cons.mpr ⟨hlevels, rfl⟩
  | b, free + 1, h => by
    have hlevels : (Nesting.mk b 0).levels + (free + 1) ≤ Nesting.limit := by
      simp only [Nesting.levels]
      omega
    obtain ⟨hsigns, hafter⟩ := signs_fit (free + 1) hlevels
    obtain ⟨m, hm, -⟩ := parses_tower free
    rw [tower, Nesting.fits_append, hafter, Nesting.fits_cons,
      show (valued .openParen "(").kind = .openParen from rfl, Nesting.next_opening (by decide),
      Nesting.fits_append, hm.nesting_after]
    have hopen : b + 1 ≤ Nesting.limit := by omega
    have hclose : b ≤ Nesting.limit := by omega
    have inner : (Nesting.mk (b + 1) 0).Fits (tower free) := tower_fits (by omega)
    exact ⟨hsigns, hopen, inner, Nesting.fits_cons.mpr ⟨hclose, rfl⟩⟩

theorem operatorCount_ones : ∀ n : Nat, operatorCount (ones n) = n
  | 0 => rfl
  | n + 1 => by
    rw [ones_succ, operatorCount_append, operatorCount_ones n]
    rfl

theorem operatorCount_sum (operand : List Lexeme) (n : Nat) :
    operatorCount (sum operand n) = operatorCount operand + n := by
  have hvalue : operatorCount (sum operand n) = operatorCount (operand ++ ones n) + 0 :=
    operatorCount_append (operand ++ ones n) [valued .semicolon ";"]
  rw [hvalue, operatorCount_append, operatorCount_ones, Nat.add_zero]

theorem operatorCount_tower : ∀ free : Nat, operatorCount (tower free) = 0
  | 0 => rfl
  | free + 1 => by
    have hsigns : operatorCount (signs (free + 1)) = 0 := by
      rw [operatorCount, List.countP_eq_zero]
      intro l hl
      rw [List.eq_of_mem_replicate hl]
      decide
    have hinner :
        operatorCount (valued .openParen "(" :: (tower free ++ [valued .closeParen ")"])) =
          operatorCount (tower free) + 0 := operatorCount_append (tower free) _
    rw [tower, operatorCount_append, hsigns, hinner, operatorCount_tower free]

/-- For every number of operators, some program that passes the check is as deep as it can be. -/
theorem exists_deepest (n : Nat) : ∃ ls m, Nesting.tooDeep? ls = none ∧ program.run ls = .ok m ∧
    mostOperators ls ≤ n ∧ m.depth = n + 831 := by
  obtain ⟨m, hm, hdepth⟩ := parses_tower 32
  have hroom : room (.level 0) 32 = 820 := by decide
  obtain ⟨m', hrun, hdepth'⟩ := exists_run_sum hm (by omega) n
  refine ⟨sum (tower 32) n, m', sum_fits hm (tower_fits rfl) n, hrun, ?_, by omega⟩
  have hmost := mostOperators_le_operatorCount (sum (tower 32) n)
  rw [operatorCount_sum, operatorCount_tower] at hmost
  omega

/-- **Only operators make matches of any depth.** 2000 levels are enough for all programs that
pass the nesting check and have at most so many operators in a statement, if and only if these
are at most 1169. -/
theorem depth_le_iff (n : Nat) :
    (∀ ls m, Nesting.tooDeep? ls = none → program.run ls = .ok m → mostOperators ls ≤ n →
      m.depth ≤ 2000) ↔ n ≤ 1169 := by
  constructor
  · intro h
    obtain ⟨ls, m, hdeep, hrun, hmost, hdepth⟩ := exists_deepest n
    have := h ls m hdeep hrun hmost
    omega
  · intro hn ls m hdeep hrun hmost
    have := depth_le_of_fits hdeep hrun
    omega

/-- A sum of ones with 1986 operators passes the nesting check and has more than 2000 levels. -/
theorem depth_of_long_sum : Nesting.tooDeep? (sum [valued .number "1"] 1986) = none ∧
    ∃ m, program.run (sum [valued .number "1"] 1986) = .ok m ∧ m.depth = 2001 := by
  have one : Parses (.level 0) [valued .number "1"] _ :=
    .operand (.literal (r := .number) (by decide))
  obtain ⟨m, hrun, hdepth⟩ := exists_run_sum one (by decide) 1986
  have hone : Match.depth (.rule .operation [(Match.rule .number
    [.token (valued .number "1").token]).grouped]) = 4 := rfl
  exact ⟨sum_fits one rfl 1986, m, hrun, by omega⟩

end Grammar
end OpenScad
