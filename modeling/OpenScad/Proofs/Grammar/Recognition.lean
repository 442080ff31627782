/-
# What a parser recognises

A parser is sound for a relation if the tokens that it takes away from the
front are always related to the value that it gives. Soundness of a parser made
of others follows from theirs, one law for each way of putting parsers
together.

The laws for `bind` and `map` are stated for a relation that is given
beforehand, so that the relation of a whole production is written down once, at
its end, and not put together from those of its parts.

Key definitions: `Parser.Sound`.
Key theorems: `Parser.Sound.bind`, `Parser.Sound.many`.
-/
import OpenScad.Grammar.Parser

namespace OpenScad
namespace Parser

variable {α β : Type}

/-- The tokens that the parser takes from the front are related to the value that it
gives, and the index moves on by their number. -/
def Sound (p : Parser α) (R : List Lexeme → α → Prop) : Prop :=
  ∀ i ls a j rest, (p i ls).result = some (a, j, rest) →
    ∃ u, ls = u ++ rest ∧ j = i + u.length ∧ R u a

variable {p : Parser α} {R : List Lexeme → α → Prop} {S : List Lexeme → β → Prop}

theorem Sound.mono {Q : List Lexeme → α → Prop} (h : p.Sound R) (hQ : ∀ u a, R u a → Q u a) :
    p.Sound Q := by
  intro i ls a j rest hr
  obtain ⟨u, hu, hj, hR⟩ := h i ls a j rest hr
  exact ⟨u, hu, hj, hQ u a hR⟩

theorem sound_pure {a : α} (h : R [] a) : (pure a).Sound R := by
  intro i ls b j rest hr
  simp only [pure, Option.some.injEq, Prod.mk.injEq] at hr
  obtain ⟨rfl, rfl, rfl⟩ := hr
  exact ⟨[], rfl, rfl, h⟩

theorem sound_fail : (fail : Parser α).Sound R := by
  intro i ls a j rest hr
  simp [fail] at hr

theorem sound_accept {f : Lexeme → Option α} (h : ∀ l a, f l = some a → R [l] a) :
    (accept f).Sound R := by
  intro i ls a j rest hr
  cases ls with
  | nil => simp [accept] at hr
  | cons l ls =>
    simp only [accept] at hr
    split at hr
    · rename_i b hb
      simp only [Option.some.injEq, Prod.mk.injEq] at hr
      obtain ⟨rfl, rfl, rfl⟩ := hr
      exact ⟨[l], rfl, rfl, h l _ hb⟩
    · simp at hr

/-- A successful `bind` is two successes, one behind the other. -/
theorem result_bind {f : α → Parser β} {i j : Nat} {ls rest : List Lexeme} {b : β} :
    ((p.bind f) i ls).result = some (b, j, rest) ↔
      ∃ a k mid, (p i ls).result = some (a, k, mid) ∧ (f a k mid).result = some (b, j, rest) := by
  unfold bind
  simp only
  split
  · rename_i h
    simp [h]
  · rename_i a k mid h
    constructor
    · intro hb
      exact ⟨a, k, mid, h, hb⟩
    · rintro ⟨a', k', mid', h', hb⟩
      rw [h] at h'
      cases h'
      exact hb

/-- A successful `map` is a success with another value. -/
theorem result_map {f : α → β} {i j : Nat} {ls rest : List Lexeme} {b : β} :
    ((p.map f) i ls).result = some (b, j, rest) ↔
      ∃ a, (p i ls).result = some (a, j, rest) ∧ f a = b := by
  simp only [map, Option.map_eq_some_iff]
  constructor
  · rintro ⟨⟨a, k, mid⟩, h, e⟩
    simp only [Prod.mk.injEq] at e
    obtain ⟨rfl, rfl, rfl⟩ := e
    exact ⟨a, h, rfl⟩
  · rintro ⟨a, h, rfl⟩
    exact ⟨(a, j, rest), h, rfl⟩

theorem Sound.bind {f : α → Parser β} (h : p.Sound R)
    (hf : ∀ u a, R u a → (f a).Sound fun v b => S (u ++ v) b) : (p.bind f).Sound S := by
  intro i ls b j rest hr
  obtain ⟨a, k, mid, h1, h2⟩ := result_bind.mp hr
  obtain ⟨u, rfl, rfl, hu⟩ := h i ls a k mid h1
  obtain ⟨v, rfl, rfl, hv⟩ := hf u a hu _ _ b j rest h2
  exact ⟨u ++ v, by rw [List.append_assoc], by rw [List.length_append]; omega, hv⟩

theorem Sound.map {f : α → β} (h : p.Sound R) (hf : ∀ u a, R u a → S u (f a)) :
    (p.map f).Sound S := by
  intro i ls b j rest hr
  obtain ⟨a, h1, rfl⟩ := result_map.mp hr
  obtain ⟨u, hu, hj, hR⟩ := h i ls a j rest h1
  exact ⟨u, hu, hj, hf u a hR⟩

theorem Sound.orElse {q : Parser α} (hp : p.Sound R) (hq : q.Sound R) : (p.orElse q).Sound R := by
  intro i ls a j rest hr
  unfold Parser.orElse at hr
  simp only at hr
  split at hr
  · exact hp i ls a j rest hr
  · exact hq i ls a j rest hr

theorem sound_choice : ∀ ps : List (Parser α), (∀ p ∈ ps, p.Sound R) → (choice ps).Sound R
  | [], _ => sound_fail
  | p :: ps, h =>
    (h p List.mem_cons_self).orElse (sound_choice ps fun q hq => h q (List.mem_cons_of_mem p hq))

theorem Sound.optional {Q : List Lexeme → Option α → Prop} (h : p.Sound R)
    (hsome : ∀ u a, R u a → Q u (some a)) (hnone : Q [] none) : p.optional.Sound Q :=
  (h.map hsome).orElse (sound_pure hnone)

/-- What `many` recognises are parts that its parser recognises, one behind the other. -/
def Parts (R : List Lexeme → α → Prop) (u : List Lexeme) (as : List α) : Prop :=
  ∃ parts : List (List Lexeme × α), (∀ x ∈ parts, R x.1 x.2) ∧
    u = (parts.map (·.1)).flatten ∧ as = parts.map (·.2)

theorem parts_nil : Parts R [] [] := ⟨[], by simp, rfl, rfl⟩

theorem Parts.cons {u v : List Lexeme} {a : α} {as : List α} (h : R u a) (hs : Parts R v as) :
    Parts R (u ++ v) (a :: as) := by
  obtain ⟨parts, hp, rfl, rfl⟩ := hs
  refine ⟨(u, a) :: parts, ?_, rfl, rfl⟩
  intro x hx
  rcases List.mem_cons.mp hx with rfl | hx
  · exact h
  · exact hp x hx

theorem sound_manyWithin (h : p.Sound R) :
    ∀ bound : List Lexeme, (manyWithin p bound).Sound (Parts R)
  | [] => sound_pure parts_nil
  | _ :: bound =>
    (h.bind fun _ _ hu => (sound_manyWithin h bound).map fun _ _ hv => Parts.cons hu hv).orElse
      (sound_pure parts_nil)

theorem Sound.many (h : p.Sound R) : p.many.Sound (Parts R) :=
  fun i ls => sound_manyWithin h ls i ls

end Parser
end OpenScad
