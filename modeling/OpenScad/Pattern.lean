/-
# Patterns of text

A pattern is built from single characters by choice, sequence and repetition.
`Pattern.Matches` says which texts it describes. The longest match at the front
of a text is found character by character: after each character the pattern is
replaced by what may still follow, and the last place where nothing more is
needed ends the match.

The first match is another: of two choices it takes the left one if it can, and
it repeats as often as it can, whatever the length of the whole is.

Key definitions: `Pattern`, `Pattern.Matches`, `Pattern.after`,
`Pattern.longest`, `Pattern.found`.
Key theorems: `Pattern.matches_after`, `Pattern.longest_matches`.
-/
namespace OpenScad

/-- A pattern of text. -/
inductive Pattern where
  /-- No text at all. -/
  | nothing
  /-- The empty text. -/
  | done
  /-- One character that a test accepts. -/
  | one (test : Char → Bool)
  /-- Either of two patterns. -/
  | either (a b : Pattern)
  /-- One pattern and then another. -/
  | sequence (a b : Pattern)
  /-- A pattern any number of times. -/
  | many (a : Pattern)

namespace Pattern

/-- Which texts a pattern describes. -/
inductive Matches : Pattern → List Char → Prop where
  | done : Matches .done []
  | one {test : Char → Bool} {c : Char} (accepted : test c = true) : Matches (.one test) [c]
  | left {a b : Pattern} {s : List Char} (m : Matches a s) : Matches (.either a b) s
  | right {a b : Pattern} {s : List Char} (m : Matches b s) : Matches (.either a b) s
  | sequence {a b : Pattern} {s t : List Char} (m : Matches a s) (n : Matches b t) :
      Matches (.sequence a b) (s ++ t)
  | none {a : Pattern} : Matches (.many a) []
  | more {a : Pattern} {s t : List Char} (m : Matches a s) (n : Matches (.many a) t) :
      Matches (.many a) (s ++ t)

/-! ### Patterns made of others -/

/-- The given text. -/
@[simp]
def literal : List Char → Pattern
  | [] => done
  | c :: cs => sequence (one (· == c)) (literal cs)

/-- A pattern or the empty text. -/
def optional (a : Pattern) : Pattern := either a done

/-- A pattern at least once. -/
@[simp]
def some (a : Pattern) : Pattern := sequence a (many a)

/-! ### What may follow a character -/

/-- Whether a pattern describes the empty text. -/
@[simp]
def nullable : Pattern → Bool
  | nothing => false
  | done => true
  | one _ => false
  | either a b => a.nullable || b.nullable
  | sequence a b => a.nullable && b.nullable
  | many _ => true

/-- Choice that drops a side which describes nothing. -/
@[simp]
def join : Pattern → Pattern → Pattern
  | nothing, b => b
  | a, nothing => a
  | a, b => either a b

/-- Sequence that is nothing if its first part is, and drops a first part that only
describes the empty text. -/
@[simp]
def append : Pattern → Pattern → Pattern
  | nothing, _ => nothing
  | done, b => b
  | a, b => sequence a b

/-- What may follow a character at the front of a text of the pattern. -/
@[simp]
def after (c : Char) : Pattern → Pattern
  | nothing => nothing
  | done => nothing
  | one test => if test c then done else nothing
  | either a b => (a.after c).join (b.after c)
  | sequence a b =>
    if a.nullable then ((a.after c).append b).join (b.after c) else (a.after c).append b
  | many a => (a.after c).append (many a)

/-- The length of the longest text of the pattern at the front of a text. -/
def longest : Pattern → List Char → Option Nat
  | nothing, _ => Option.none
  | p, [] => if p.nullable then Option.some 0 else Option.none
  | p, c :: cs =>
    match longest (p.after c) cs with
    | Option.some n => Option.some (n + 1)
    | Option.none => if p.nullable then Option.some 0 else Option.none

/-! ### The first match -/

/-- A step as often as it goes, and less often only if what comes next fails behind it. -/
def repeated {α : Type} (step : (List Char → Option α) → List Char → Option α)
    (next : List Char → Option α) : Nat → List Char → Option α
  | 0, s => next s
  | n + 1, s =>
    step (fun rest => if rest.length < s.length then repeated step next n rest else Option.none) s
      <|> next s

/-- What comes next, behind the first text of the pattern at the front of a text behind which
it succeeds. -/
@[simp]
def first {α : Type} : Pattern → (List Char → Option α) → List Char → Option α
  | nothing, _, _ => Option.none
  | done, next, s => next s
  | one _, _, [] => Option.none
  | one test, next, c :: s => if test c then next s else Option.none
  | either a b, next, s => a.first next s <|> b.first next s
  | sequence a b, next, s => a.first (b.first next) s
  | many a, next, s => repeated a.first next s.length s

/-- The first text of the pattern at the front of a text. -/
def found (p : Pattern) (s : List Char) : Option (List Char) :=
  (p.first Option.some s).map fun rest => s.take (s.length - rest.length)

/-! ### Laws -/

theorem nullable_iff (p : Pattern) : p.nullable = true ↔ p.Matches [] := by
  induction p with
  | nothing => simp only [nullable, Bool.false_eq_true, false_iff]; intro h; cases h
  | done => simp only [nullable, true_iff]; exact .done
  | one test => simp only [nullable, Bool.false_eq_true, false_iff]; intro h; cases h
  | either a b iha ihb =>
    simp only [nullable, Bool.or_eq_true, iha, ihb]
    constructor
    · rintro (h | h)
      · exact .left h
      · exact .right h
    · intro h
      cases h with
      | left m => exact Or.inl m
      | right m => exact Or.inr m
  | sequence a b iha ihb =>
    simp only [nullable, Bool.and_eq_true, iha, ihb]
    constructor
    · rintro ⟨ha, hb⟩
      exact .sequence ha hb
    · intro h
      generalize ht : ([] : List Char) = t at h
      cases h with
      | sequence m n =>
        obtain ⟨rfl, rfl⟩ := List.append_eq_nil_iff.1 ht.symm
        exact ⟨m, n⟩
  | many a _ => simp only [nullable, true_iff]; exact .none

theorem matches_join (a b : Pattern) (s : List Char) :
    (a.join b).Matches s ↔ a.Matches s ∨ b.Matches s := by
  have no (t : List Char) : ¬ nothing.Matches t := fun h => by cases h
  have either_iff : (either a b).Matches s ↔ a.Matches s ∨ b.Matches s :=
    ⟨fun h => by
      cases h with
      | left m => exact Or.inl m
      | right m => exact Or.inr m,
      fun h => h.elim .left .right⟩
  cases a <;> cases b <;> simp_all [join]

theorem matches_append (a b : Pattern) (s : List Char) :
    (a.append b).Matches s ↔ ∃ u v, s = u ++ v ∧ a.Matches u ∧ b.Matches v := by
  have sequence_iff : (sequence a b).Matches s ↔ ∃ u v, s = u ++ v ∧ a.Matches u ∧ b.Matches v :=
    ⟨fun h => by
      cases h with
      | sequence m n => exact ⟨_, _, rfl, m, n⟩,
      fun ⟨u, v, e, m, n⟩ => e ▸ .sequence m n⟩
  cases a with
  | nothing =>
    constructor
    · intro h; cases h
    · rintro ⟨u, v, -, h, -⟩; cases h
  | done =>
    constructor
    · intro h
      exact ⟨[], s, rfl, .done, h⟩
    · rintro ⟨u, v, rfl, h, m⟩
      cases h
      exact m
  | _ => exact sequence_iff

/-- The texts of `p.after c` are those that make a text of `p` behind `c`. -/
theorem matches_after (p : Pattern) (c : Char) (s : List Char) :
    (p.after c).Matches s ↔ p.Matches (c :: s) := by
  induction p generalizing s with
  | nothing => constructor <;> intro h <;> cases h
  | done => constructor <;> intro h <;> cases h
  | one test =>
    unfold after
    split
    · rename_i ht
      constructor
      · intro h
        cases h
        exact .one ht
      · intro h
        cases h
        exact .done
    · rename_i ht
      constructor
      · intro h; cases h
      · intro h
        cases h with
        | one accepted => exact absurd accepted ht
  | either a b iha ihb =>
    unfold after
    rw [matches_join, iha, ihb]
    constructor
    · rintro (h | h)
      · exact .left h
      · exact .right h
    · intro h
      cases h with
      | left m => exact Or.inl m
      | right m => exact Or.inr m
  | sequence a b iha ihb =>
    have seq_iff : (sequence a b).Matches (c :: s) ↔
        (∃ u v, s = u ++ v ∧ a.Matches (c :: u) ∧ b.Matches v) ∨
          (a.nullable = true ∧ b.Matches (c :: s)) := by
      rw [nullable_iff]
      constructor
      · intro h
        generalize ht : c :: s = t at h
        cases h with
        | @sequence _ _ u v m n =>
          cases u with
          | nil =>
            simp only [List.nil_append] at ht
            exact Or.inr ⟨m, ht ▸ n⟩
          | cons d u =>
            simp only [List.cons_append, List.cons.injEq] at ht
            obtain ⟨rfl, rfl⟩ := ht
            exact Or.inl ⟨u, v, rfl, m, n⟩
      · rintro (⟨u, v, rfl, m, n⟩ | ⟨m, n⟩)
        · exact .sequence m n
        · exact .sequence m n
    rw [seq_iff]
    unfold after
    split
    · rename_i hn
      rw [matches_join, matches_append, ihb]
      simp only [iha, hn, true_and]
    · rename_i hn
      rw [matches_append]
      simp only [iha, hn, false_and, or_false, Bool.false_eq_true]
  | many a ih =>
    unfold after
    rw [matches_append]
    constructor
    · rintro ⟨u, v, rfl, m, n⟩
      exact .more ((ih u).1 m) n
    · intro h
      generalize hp : many a = p at h
      generalize ht : c :: s = t at h
      induction h with
      | @more a' u v m n _ ihn =>
        cases hp
        cases u with
        | nil => exact ihn rfl (by simpa using ht)
        | cons d u =>
          simp only [List.cons_append, List.cons.injEq] at ht
          obtain ⟨rfl, rfl⟩ := ht
          exact ⟨u, v, rfl, (ih u).2 m, n⟩
      | none => cases ht
      | _ => cases hp

/-- The longest match is a text of the pattern, and no longer front of the text is. -/
theorem longest_matches (p : Pattern) (text : List Char) :
    match p.longest text with
    | Option.some n => n ≤ text.length ∧ p.Matches (text.take n) ∧
        ∀ m, n < m → m ≤ text.length → ¬ p.Matches (text.take m)
    | Option.none => ∀ m, m ≤ text.length → ¬ p.Matches (text.take m) := by
  induction text generalizing p with
  | nil =>
    by_cases hn : p.nullable = true
    · have hl : p.longest [] = Option.some 0 := by cases p <;> simp_all [longest]
      rw [hl]
      exact ⟨Nat.le_refl _, by simpa using (nullable_iff p).1 hn,
        fun m h h' => by simp at h'; omega⟩
    · have hl : p.longest [] = Option.none := by cases p <;> simp_all [longest]
      rw [hl]
      intro m _ h
      exact hn ((nullable_iff p).2 (by simpa using h))
  | cons c cs ih =>
    have hl : p.longest (c :: cs) =
        match longest (p.after c) cs with
        | Option.some n => Option.some (n + 1)
        | Option.none => if p.nullable then Option.some 0 else Option.none := by
      cases p <;> simp [longest]
    have h := ih (p.after c)
    rw [hl]
    cases hr : longest (p.after c) cs with
    | some n =>
      rw [hr] at h
      obtain ⟨h1, h2, h3⟩ := h
      refine ⟨by simpa using h1, by simpa using (matches_after p c _).1 h2, ?_⟩
      intro m hm hm' hM
      cases m with
      | zero => omega
      | succ m =>
        exact h3 m (by omega) (by simpa using hm') ((matches_after p c _).2 (by simpa using hM))
    | none =>
      rw [hr] at h
      have later : ∀ m, 0 < m → m ≤ (c :: cs).length → ¬ p.Matches ((c :: cs).take m) := by
        intro m hm hm' hM
        cases m with
        | zero => omega
        | succ m =>
          exact h m (by simpa using hm') ((matches_after p c _).2 (by simpa using hM))
      by_cases hn : p.nullable = true
      · simp only [hn, if_true]
        exact ⟨Nat.zero_le _, by simpa using (nullable_iff p).1 hn, later⟩
      · simp only [hn, Bool.false_eq_true, if_false]
        intro m hm hM
        cases m with
        | zero => exact hn ((nullable_iff p).2 (by simpa using hM))
        | succ m => exact later _ (by omega) hm hM

end Pattern
end OpenScad
