/-
# Parsers side by side

The outcome of a parser is decided by the tokens up to the furthest place at
which a test failed. `Parser.Tracks` says this of two parsers on two lists of
tokens: if related tokens stand at every place up to there, the second parser
fails where the first one fails, and otherwise goes on at the same place with a
related value.

The tokens bound repetitions and nesting, so two lists of different length give
the parsers different bounds. This makes no difference, as a bound runs out only
where the tokens do.

Key definitions: `Parser.Tracks`, `Parser.NeedsToken`.
Key theorems: `Parser.Tracks.bind`, `Parser.Tracks.many`.
-/
import Mathlib.Data.List.Forall2
import OpenScad.Proofs.Grammar.Recognition

namespace OpenScad

/-! ### Tokens and replies side by side -/

section Alike

variable {α β : Type}

/-- From the index `i` on, related tokens stand at every place up to the index `j`. -/
def AlikeUpTo (T : Lexeme → Lexeme → Prop) (i j : Nat) (ls ls' : List Lexeme) : Prop :=
  ∀ k, i + k ≤ j → Option.Rel T ls[k]? ls'[k]?

variable {T : Lexeme → Lexeme → Prop} {i j k n : Nat} {ls ls' : List Lexeme}

theorem AlikeUpTo.mono (h : AlikeUpTo T i j ls ls') (hk : k ≤ j) : AlikeUpTo T i k ls ls' :=
  fun m hm => h m (Nat.le_trans hm hk)

theorem AlikeUpTo.drop (h : AlikeUpTo T i j ls ls') :
    AlikeUpTo T (i + n) j (ls.drop n) (ls'.drop n) := by
  intro k hk
  rw [List.getElem?_drop, List.getElem?_drop]
  exact h (n + k) (by omega)

/-- Lists with related tokens at every place. -/
theorem alikeUpTo_of_forall₂ (h : List.Forall₂ T ls ls') : AlikeUpTo T i j ls ls' := by
  intro k hk
  clear hk
  induction h generalizing k with
  | nil => exact .none
  | cons hl _ ih =>
    cases k with
    | zero => exact .some hl
    | succ k => exact ih k

/-- If one list has no tokens and some place is compared, neither has. -/
theorem AlikeUpTo.nil_iff (h : AlikeUpTo T i j ls ls') (hij : i ≤ j) : ls = [] ↔ ls' = [] := by
  have hfirst := h 0 hij
  cases ls with
  | nil =>
    cases ls' with
    | nil => exact Iff.rfl
    | cons l' rest' => cases hfirst
  | cons l rest =>
    cases ls' with
    | nil => cases hfirst
    | cons l' rest' => simp

/-- Two results: either none, or values that are related behind the same number of tokens. -/
inductive ResultsAlike (S : α → β → Prop) (i : Nat) (ls ls' : List Lexeme) :
    Option (α × Nat × List Lexeme) → Option (β × Nat × List Lexeme) → Prop where
  | fail : ResultsAlike S i ls ls' none none
  | success {a : α} {b : β} {n : Nat} (value : S a b) :
      ResultsAlike S i ls ls' (some (a, i + n, ls.drop n)) (some (b, i + n, ls'.drop n))

end Alike

namespace Parser

/-! ### Replies of parsers that are put together -/

section Replies

variable {α β : Type} {p : Parser α} {f : α → Parser β} {q : Parser α} {i j : Nat} {a : α}
  {ls rest : List Lexeme}

theorem bind_of_none (h : (p i ls).result = none) :
    (p.bind f) i ls = { result := none, furthest := (p i ls).furthest } := by
  simp only [bind, h]

theorem bind_of_some (h : (p i ls).result = some (a, j, rest)) :
    (p.bind f) i ls = { result := (f a j rest).result
                        furthest := max (p i ls).furthest (f a j rest).furthest } := by
  simp only [bind, h]

theorem orElse_of_none (h : (p i ls).result = none) :
    (p.orElse q) i ls = { result := (q i ls).result
                          furthest := max (p i ls).furthest (q i ls).furthest } := by
  simp only [Parser.orElse, h]

theorem orElse_of_some (h : (p i ls).result = some (a, j, rest)) :
    (p.orElse q) i ls = p i ls := by
  simp only [Parser.orElse, h]

end Replies

/-! ### Where parsers look -/

/-- The parser takes at least so many tokens. -/
def Advances {α : Type} (p : Parser α) (c : Nat) : Prop :=
  ∀ i n ls a rest, (p i ls).result = some (a, i + n, rest) → c ≤ n

theorem advances_zero {α : Type} (p : Parser α) : p.Advances 0 := fun _ _ _ _ _ _ => Nat.zero_le _

theorem Sound.advances {α : Type} {p : Parser α} {R : List Lexeme → α → Prop} (h : p.Sound R)
    (hne : ∀ u a, R u a → u ≠ []) : p.Advances 1 := by
  intro i n ls a rest hr
  obtain ⟨u, -, hn, hR⟩ := h i ls a _ rest hr
  have := List.length_pos_iff.mpr (hne u a hR)
  omega

/-- The parser does not look back, and fails where there is no token. -/
structure NeedsToken {α : Type} (p : Parser α) : Prop where
  le_furthest : ∀ i ls, i ≤ (p i ls).furthest
  at_nil : ∀ i, p i [] = { result := none, furthest := i }

section NeedsToken

variable {α β : Type} {p q : Parser α}

theorem needsToken_fail : (fail : Parser α).NeedsToken := ⟨fun i _ => Nat.le_refl i, fun _ => rfl⟩

theorem needsToken_accept (f : Lexeme → Option α) : (accept f).NeedsToken := by
  refine ⟨fun i ls => ?_, fun _ => rfl⟩
  cases ls with
  | nil => exact Nat.le_refl i
  | cons l ls =>
    unfold accept
    simp only
    split <;> exact Nat.le_refl i

theorem advances_accept (f : Lexeme → Option α) : (accept f).Advances 1 :=
  (sound_accept fun _ _ _ => rfl : (accept f).Sound fun u _ => u.length = 1).advances
    fun _ _ hu => List.ne_nil_of_length_eq_add_one hu

theorem NeedsToken.map {f : α → β} (h : p.NeedsToken) : (p.map f).NeedsToken := by
  refine ⟨h.le_furthest, fun i => ?_⟩
  unfold Parser.map
  rw [h.at_nil]
  rfl

theorem furthest_le_bind (f : α → Parser β) (i : Nat) (ls : List Lexeme) :
    (p i ls).furthest ≤ ((p.bind f) i ls).furthest := by
  unfold Parser.bind
  simp only
  split
  · exact Nat.le_refl _
  · exact Nat.le_max_left _ _

theorem furthest_le_orElse (i : Nat) (ls : List Lexeme) :
    (p i ls).furthest ≤ ((p.orElse q) i ls).furthest := by
  unfold Parser.orElse
  simp only
  split
  · exact Nat.le_refl _
  · exact Nat.le_max_left _ _

theorem NeedsToken.bind {f : α → Parser β} (h : p.NeedsToken) : (p.bind f).NeedsToken := by
  refine ⟨fun i ls => Nat.le_trans (h.le_furthest i ls) (furthest_le_bind f i ls), fun i => ?_⟩
  rw [bind_of_none (by rw [h.at_nil]), h.at_nil]

theorem NeedsToken.orElse (hp : p.NeedsToken) (hq : q.NeedsToken) : (p.orElse q).NeedsToken := by
  refine ⟨fun i ls => Nat.le_trans (hp.le_furthest i ls) (furthest_le_orElse i ls), fun i => ?_⟩
  rw [orElse_of_none (by rw [hp.at_nil]), hp.at_nil, hq.at_nil, Nat.max_self]

theorem needsToken_choice : ∀ ps : List (Parser α), (∀ p ∈ ps, p.NeedsToken) →
    (choice ps).NeedsToken
  | [], _ => needsToken_fail
  | p :: ps, h => (h p List.mem_cons_self).orElse
      (needsToken_choice ps fun q hq => h q (List.mem_cons_of_mem p hq))

end NeedsToken

/-! ### One parser tracks another -/

section Tracks

variable {α β γ δ : Type} {T : Lexeme → Lexeme → Prop} {S : α → β → Prop} {U : γ → δ → Prop}
  {N N' M M' : Nat} {p : Parser α} {q : Parser β}

/-- Where related tokens stand up to the furthest failing test of the first parser, the second
one looks as far and has a like result, on lists of bounded lengths. -/
def Tracks (T : Lexeme → Lexeme → Prop) (S : α → β → Prop) (N N' : Nat) (p : Parser α)
    (q : Parser β) : Prop :=
  ∀ i ls ls', ls.length ≤ N → ls'.length ≤ N' → AlikeUpTo T i (p i ls).furthest ls ls' →
    (q i ls').furthest = (p i ls).furthest ∧
      ResultsAlike S i ls ls' (p i ls).result (q i ls').result

theorem Tracks.shorter (h : Tracks T S N N' p q) (hM : M ≤ N) (hM' : M' ≤ N') :
    Tracks T S M M' p q :=
  fun i ls ls' hls hls' => h i ls ls' (Nat.le_trans hls hM) (Nat.le_trans hls' hM')

theorem tracks_pure {a : α} {b : β} (h : S a b) : Tracks T S N N' (pure a) (pure b) :=
  fun _ _ _ _ _ _ => ⟨rfl, .success (n := 0) h⟩

theorem tracks_fail : Tracks T S N N' fail fail := fun _ _ _ _ _ _ => ⟨rfl, .fail⟩

theorem tracks_accept {f : Lexeme → Option α} {g : Lexeme → Option β}
    (h : ∀ l l', T l l' → Option.Rel S (f l) (g l')) :
    Tracks T S N N' (accept f) (accept g) := by
  intro i ls ls' _ _ halike
  have hstart : i ≤ (accept f i ls).furthest := (needsToken_accept f).le_furthest i ls
  have hfirst := halike 0 hstart
  cases ls with
  | nil =>
    obtain rfl := (halike.nil_iff hstart).mp rfl
    exact ⟨rfl, .fail⟩
  | cons l rest =>
    cases ls' with
    | nil => cases hfirst
    | cons l' rest' =>
      rw [List.getElem?_cons_zero, List.getElem?_cons_zero, Option.rel_some_some] at hfirst
      have hvalue := h l l' hfirst
      unfold accept
      simp only
      generalize f l = x, g l' = y at hvalue
      cases hvalue with
      | none => exact ⟨rfl, .fail⟩
      | some hS => exact ⟨rfl, .success (n := 1) hS⟩

theorem tracks_atEnd : Tracks T (fun _ _ => True) N N' atEnd atEnd := by
  intro i ls ls' _ _ halike
  have hstart : i ≤ (atEnd i ls).furthest := by
    cases ls <;> exact Nat.le_refl i
  cases ls with
  | nil =>
    obtain rfl := (halike.nil_iff hstart).mp rfl
    exact ⟨rfl, .success (n := 0) trivial⟩
  | cons l rest =>
    cases ls' with
    | nil => cases (halike.nil_iff hstart).mpr rfl
    | cons l' rest' => exact ⟨rfl, .fail⟩

theorem Tracks.map {f : α → γ} {g : β → δ} (h : Tracks T S N N' p q)
    (hf : ∀ a b, S a b → U (f a) (g b)) : Tracks T U N N' (p.map f) (q.map g) := by
  intro i ls ls' hls hls' halike
  obtain ⟨hfar, hresults⟩ := h i ls ls' hls hls' halike
  refine ⟨hfar, ?_⟩
  unfold Parser.map
  simp only
  generalize (p i ls).result = r, (q i ls').result = r' at hresults
  cases hresults with
  | fail => exact .fail
  | success value => exact .success (hf _ _ value)

/-- One parser, then another. If the first takes tokens, the second sees shorter lists. -/
theorem Tracks.bind {f : α → Parser γ} {g : β → Parser δ} {c : Nat} (hc : p.Advances c)
    (h : Tracks T S N N' p q)
    (hf : ∀ a b, S a b → Tracks T U (N - c) (N' - c) (f a) (g b)) :
    Tracks T U N N' (p.bind f) (q.bind g) := by
  intro i ls ls' hls hls' halike
  obtain ⟨hfar, hresults⟩ := h i ls ls' hls hls' (halike.mono (furthest_le_bind f i ls))
  generalize hr : (p i ls).result = r, hr' : (q i ls').result = r' at hresults
  cases hresults with
  | fail =>
    rw [bind_of_none hr, bind_of_none hr']
    exact ⟨hfar, .fail⟩
  | @success a b n value =>
    have hn : c ≤ n := hc i n ls a _ hr
    rw [bind_of_some hr] at halike ⊢
    rw [bind_of_some hr']
    have hsecond :
        AlikeUpTo T (i + n) (f a (i + n) (ls.drop n)).furthest (ls.drop n) (ls'.drop n) :=
      (halike.mono (Nat.le_max_right _ _)).drop
    obtain ⟨hfar', hresults'⟩ := hf a b value (i + n) (ls.drop n) (ls'.drop n)
      (by rw [List.length_drop]; omega) (by rw [List.length_drop]; omega) hsecond
    refine ⟨by rw [hfar, hfar'], ?_⟩
    generalize (f a (i + n) (ls.drop n)).result = s, (g b (i + n) (ls'.drop n)).result = s'
      at hresults'
    cases hresults' with
    | fail => exact .fail
    | success value =>
      rw [List.drop_drop, List.drop_drop, Nat.add_assoc]
      exact .success value

/-- One parser, then another, on lists that get no shorter in between. -/
theorem Tracks.andThen {f : α → Parser γ} {g : β → Parser δ} (h : Tracks T S N N' p q)
    (hf : ∀ a b, S a b → Tracks T U N N' (f a) (g b)) :
    Tracks T U N N' (p.bind f) (q.bind g) :=
  Tracks.bind (advances_zero p) h hf

theorem Tracks.orElse {p' : Parser α} {q' : Parser β} (h : Tracks T S N N' p q)
    (h' : Tracks T S N N' p' q') : Tracks T S N N' (p.orElse p') (q.orElse q') := by
  intro i ls ls' hls hls' halike
  obtain ⟨hfar, hresults⟩ := h i ls ls' hls hls' (halike.mono (furthest_le_orElse i ls))
  generalize hr : (p i ls).result = r, hr' : (q i ls').result = r' at hresults
  cases hresults with
  | fail =>
    rw [orElse_of_none hr] at halike ⊢
    rw [orElse_of_none hr']
    obtain ⟨hfar', hresults'⟩ := h' i ls ls' hls hls' (halike.mono (Nat.le_max_right _ _))
    exact ⟨by rw [hfar, hfar'], hresults'⟩
  | success value =>
    rw [orElse_of_some hr, orElse_of_some hr', hr, hr']
    exact ⟨hfar, .success value⟩

/-- The alternatives of two choices, one by one. -/
theorem tracks_choice {ps : List (Parser α)} {qs : List (Parser β)}
    (h : List.Forall₂ (Tracks T S N N') ps qs) : Tracks T S N N' (choice ps) (choice qs) := by
  induction h with
  | nil => exact tracks_fail
  | cons first _ ih => exact first.orElse ih

theorem Tracks.optional (h : Tracks T S N N' p q) :
    Tracks T (Option.Rel S) N N' p.optional q.optional :=
  Tracks.orElse (h.map fun _ _ => Option.Rel.some) (tracks_pure .none)

/-! ### Bounded parsers -/

/-- Where a bound leaves room for no token at all, only the answers to no token count. -/
theorem tracks_of_zero (hstart : ∀ i ls, i ≤ (p i ls).furthest) (hN : N = 0 ∨ N' = 0)
    (h : ∀ i, (p i []).furthest = i ∧ (q i []).furthest = i ∧
      ResultsAlike S i [] [] (p i []).result (q i []).result) : Tracks T S N N' p q := by
  intro i ls ls' hls hls' halike
  have hnil := halike.nil_iff (hstart i ls)
  have hboth : ls = [] ∧ ls' = [] := by
    rcases hN with rfl | rfl
    · have := List.length_eq_zero_iff.mp (Nat.le_zero.mp hls)
      exact ⟨this, hnil.mp this⟩
    · have := List.length_eq_zero_iff.mp (Nat.le_zero.mp hls')
      exact ⟨hnil.mpr this, this⟩
  obtain ⟨rfl, rfl⟩ := hboth
  obtain ⟨hp, hq, hresults⟩ := h i
  exact ⟨hq.trans hp.symm, hresults⟩

theorem NeedsToken.tracks (hp : p.NeedsToken) (hq : q.NeedsToken) (hN : N = 0 ∨ N' = 0) :
    Tracks T S N N' p q := by
  refine tracks_of_zero hp.le_furthest hN fun i => ?_
  rw [hp.at_nil, hq.at_nil]
  exact ⟨rfl, rfl, .fail⟩

/-- Parsers that their own tokens bound track each other if they do within all such bounds. -/
theorem tracks_of_within (within : List Lexeme → Parser α) (within' : List Lexeme → Parser β)
    (h : ∀ bound bound', bound.length ≤ N → bound'.length ≤ N' →
      Tracks T S bound.length bound'.length (within bound) (within' bound')) :
    Tracks T S N N' (fun i ls => within ls i ls) (fun i ls => within' ls i ls) :=
  fun i ls ls' hls hls' halike =>
    h ls ls' hls hls' i ls ls' (Nat.le_refl _) (Nat.le_refl _) halike

theorem manyWithin_at_nil (h : p.NeedsToken) (bound : List Lexeme) (i : Nat) :
    manyWithin p bound i [] = { result := some ([], i, []), furthest := i } := by
  cases bound with
  | nil => rfl
  | cons b bound =>
    rw [manyWithin, orElse_of_none (by rw [h.bind.at_nil]), h.bind.at_nil]
    simp [Parser.pure]

theorem manyWithin_le_furthest (h : p.NeedsToken) (bound : List Lexeme) (i : Nat)
    (ls : List Lexeme) : i ≤ (manyWithin p bound i ls).furthest := by
  cases bound with
  | nil => exact Nat.le_refl i
  | cons b bound =>
    rw [manyWithin]
    exact Nat.le_trans (h.bind.le_furthest i ls) (furthest_le_orElse i ls)

theorem tracks_manyWithin (hp : p.NeedsToken) (hq : q.NeedsToken) (hc : p.Advances 1)
    (h : Tracks T S N N' p q) : ∀ bound bound' : List Lexeme, bound.length ≤ N →
      bound'.length ≤ N' → Tracks T (List.Forall₂ S) bound.length bound'.length
        (manyWithin p bound) (manyWithin q bound')
  | [], bound', _, _ => by
    refine tracks_of_zero (manyWithin_le_furthest hp _) (.inl rfl) fun i => ?_
    rw [manyWithin_at_nil hp, manyWithin_at_nil hq]
    exact ⟨rfl, rfl, .success (n := 0) .nil⟩
  | bound, [], _, _ => by
    refine tracks_of_zero (manyWithin_le_furthest hp _) (.inr rfl) fun i => ?_
    rw [manyWithin_at_nil hp, manyWithin_at_nil hq]
    exact ⟨rfl, rfl, .success (n := 0) .nil⟩
  | b :: bound, b' :: bound', hN, hN' => by
    have later := tracks_manyWithin hp hq hc h bound bound' (Nat.le_of_succ_le hN)
      (Nat.le_of_succ_le hN')
    refine Tracks.orElse (Tracks.bind hc (h.shorter hN hN') fun a b hab => ?_) (tracks_pure .nil)
    exact later.map fun as bs => .cons hab

theorem Tracks.many (hp : p.NeedsToken) (hq : q.NeedsToken) (hc : p.Advances 1)
    (h : Tracks T S N N' p q) : Tracks T (List.Forall₂ S) N N' p.many q.many :=
  tracks_of_within (manyWithin p) (manyWithin q) (tracks_manyWithin hp hq hc h)

/-- On lists that are alike, what one parser accepts the other accepts, with a related value. -/
theorem Tracks.run {ls ls' : List Lexeme} {a : α} (h : Tracks T S ls.length ls'.length p q)
    (halike : List.Forall₂ T ls ls') (hp : p.run ls = .ok a) : ∃ b, q.run ls' = .ok b ∧ S a b := by
  obtain ⟨-, hresults⟩ := h 0 ls ls' (Nat.le_refl _) (Nat.le_refl _) (alikeUpTo_of_forall₂ halike)
  unfold Parser.run at hp ⊢
  simp only at hp ⊢
  generalize (p 0 ls).result = r, (q 0 ls').result = r' at hresults hp
  cases hresults with
  | fail => cases hp
  | success value =>
    cases hp
    exact ⟨_, rfl, value⟩

end Tracks
end Parser
end OpenScad
