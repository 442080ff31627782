/-
# Open brackets and the rules around a token

The nesting check goes through the tokens of a source and keeps a count of open
brackets and of the run of prefix operators. On tokens that the grammar accepts,
the count behind a token is the number of blocks and parentheses of the match
that are open there, and a run is at least as long as the chain of prefix
operations that it spells (`nesting_of_match`). So what passes the check nests
no deeper than the limit, and what does not is refused at the first token at
which blocks, parentheses and prefix operators exceed it.

A match holds its tokens in order, so a rule's first and last token are found by
counting the tokens before it. Matches are put together from parts, and so is
the law of the count (`Match.Counted`): one case for parts behind one another,
one for a rule between brackets. The bound on chains of prefix operations is by
induction on the phrase, for the number of brackets that may still be opened.

Key definitions: `Match.brackets`, `Match.openAt`, `Match.signRun`,
`Match.Encloses`, `Nesting.signsUpTo`.
Key theorems: `Grammar.Parses.counted`, `Grammar.Parses.nestsWithin`,
`nesting_of_match`.
-/
import Mathlib.Data.List.DropRight
import OpenScad.Proofs.Grammar.Precedence
import OpenScad.Proofs.Lexer.Run
import OpenScad.Proofs.Parse.Nesting

namespace OpenScad

/-! ### Rules between brackets -/

/-- The rules whose first part opens a bracket and whose last part closes it. -/
def Rule.betweenBrackets : List Rule := [.block, .parenthesized]

/-- The indices of the first and of the last token of a rule between brackets. -/
structure Brackets where
  opening : Nat
  closing : Nat
  deriving DecidableEq, Repr

namespace Brackets

/-- Whether the token at an index stands at the opening or behind it, and before the closing. -/
def isOpenAt (b : Brackets) (i : Nat) : Bool := b.opening ≤ i && i < b.closing

/-- How many of the brackets are open at an index. -/
def openIn (bs : List Brackets) (i : Nat) : Nat := bs.countP (·.isOpenAt i)

/-- The brackets are tokens of a list that starts at an index. -/
structure Within (b : Brackets) (i : Nat) (u : List Lexeme) : Prop where
  le_opening : i ≤ b.opening
  opens : ∃ o, u[b.opening - i]? = some o ∧ o.kind ∈ [.openParen, .openBrace]
  lt : b.opening < b.closing
  closes : ∃ c, u[b.closing - i]? = some c ∧ c.kind ∈ [.closeParen, .closeBrace]

variable {b : Brackets} {bs : List Brackets} {i j : Nat} {u v : List Lexeme}

theorem Within.closing_lt (h : b.Within i u) : b.closing < i + u.length := by
  obtain ⟨c, hc, -⟩ := h.closes
  have hlt := (List.getElem?_eq_some_iff.mp hc).1
  have := h.le_opening
  have := h.lt
  omega

theorem Within.append (h : b.Within i u) (v : List Lexeme) : b.Within i (u ++ v) := by
  obtain ⟨⟨o, ho, hopen⟩, ⟨c, hc, hclose⟩⟩ := And.intro h.opens h.closes
  refine ⟨h.le_opening, ⟨o, ?_, hopen⟩, h.lt, ⟨c, ?_, hclose⟩⟩
  · rw [List.getElem?_append_left (List.getElem?_eq_some_iff.mp ho).1, ho]
  · rw [List.getElem?_append_left (List.getElem?_eq_some_iff.mp hc).1, hc]

theorem Within.behind (h : b.Within (i + u.length) v) : b.Within i (u ++ v) := by
  have hle := h.le_opening
  have hlt := h.lt
  have behind : ∀ k, i + u.length ≤ k → (u ++ v)[k - i]? = v[k - (i + u.length)]? := by
    intro k hk
    rw [List.getElem?_append_right (by omega), Nat.sub_sub]
  refine ⟨by omega, ?_, hlt, ?_⟩
  · rw [behind _ hle]
    exact h.opens
  · rw [behind _ (by omega)]
    exact h.closes

theorem openIn_append (bs cs : List Brackets) (i : Nat) :
    openIn (bs ++ cs) i = openIn bs i + openIn cs i :=
  List.countP_append

theorem openIn_cons (b : Brackets) (bs : List Brackets) (i : Nat) :
    openIn (b :: bs) i = openIn bs i + if b.isOpenAt i then 1 else 0 :=
  List.countP_cons

theorem openIn_eq_zero (h : ∀ b ∈ bs, i < b.opening ∨ b.closing ≤ i) : openIn bs i = 0 := by
  rw [openIn, List.countP_eq_zero]
  intro b hb hopen
  simp only [isOpenAt, Bool.and_eq_true, decide_eq_true_eq] at hopen
  have := h b hb
  omega

end Brackets

namespace Match

mutual

/-- The brackets of the blocks and parentheses in a match whose first token has the index `i`. -/
def bracketsFrom (i : Nat) : Match → List Brackets
  | absent => []
  | token _ => []
  | group parts => allBracketsFrom i parts
  | rule r parts =>
    if r ∈ Rule.betweenBrackets then
      { opening := i, closing := i + (leavesAll parts).length - 1 } :: allBracketsFrom i parts
    else allBracketsFrom i parts

/-- The brackets of the blocks and parentheses in matches behind one another. -/
def allBracketsFrom (i : Nat) : List Match → List Brackets
  | [] => []
  | part :: parts => bracketsFrom i part ++ allBracketsFrom (i + part.leaves.length) parts

end

/-- The brackets of the blocks and parentheses in a match. -/
def brackets (m : Match) : List Brackets := m.bracketsFrom 0

/-- How many blocks and parentheses of the match are open at the token with an index: they open
there or before, and close behind it. -/
def openAt (m : Match) (i : Nat) : Nat := Brackets.openIn m.brackets i

/-! ### The count of open brackets -/

/-- The count of open brackets goes through the tokens as the rules between brackets of the
matches open and close, and no closing bracket stands where the count is zero. -/
structure Counted (ms : List Match) (u : List Lexeme) : Prop where
  leaves : (leavesAll ms).length = u.length
  within : ∀ i, ∀ b ∈ allBracketsFrom i ms, b.Within i u
  balanced : ∀ nesting : Nesting, (nesting.after u).brackets = nesting.brackets
  counts : ∀ (nesting : Nesting) (i k : Nat), k < u.length →
    (nesting.after (u.take (k + 1))).brackets =
      nesting.brackets + Brackets.openIn (allBracketsFrom i ms) (i + k)
  pos : ∀ (nesting : Nesting) (k : Nat) (l : Lexeme), u[k]? = some l →
    l.kind ∈ [.closeParen, .closeBrace] → 0 < (nesting.after (u.take k)).brackets

section Counted

variable {m : Match} {ms : List Match} {u v : List Lexeme} {o c l : Lexeme} {r : Rule}

theorem allBracketsFrom_lone (i : Nat) (m : Match) : allBracketsFrom i [m] = m.bracketsFrom i := by
  rw [allBracketsFrom, allBracketsFrom, List.append_nil]

theorem leavesAll_lone (m : Match) : leavesAll [m] = m.leaves := by
  rw [leavesAll, leavesAll, List.append_nil]

theorem counted_nil : Counted [] [] :=
  ⟨rfl, fun _ _ hb => absurd hb List.not_mem_nil, fun _ => rfl,
    fun _ _ _ hk => absurd hk (Nat.not_lt_zero _), fun _ _ _ hl => nomatch hl⟩

theorem counted_absent : Counted [absent] [] :=
  ⟨rfl, fun _ _ hb => absurd hb List.not_mem_nil, fun _ => rfl,
    fun _ _ _ hk => absurd hk (Nat.not_lt_zero _), fun _ _ _ hl => nomatch hl⟩

/-- A token that is no bracket changes no count. -/
theorem counted_token (h : l.kind ∉ Nesting.bracketKinds) : Counted [token l.token] [l] := by
  have hnext (nesting : Nesting) : (nesting.next l.kind).brackets = nesting.brackets :=
    Nesting.brackets_next h
  refine ⟨rfl, fun _ _ hb => absurd hb List.not_mem_nil, hnext, fun nesting i k hk => ?_,
    fun nesting k l' hl hclose => ?_⟩
  · rw [List.length_singleton, Nat.lt_one_iff] at hk
    subst hk
    exact hnext nesting
  · obtain rfl : l' = l := by
      have := List.mem_of_getElem? hl
      exact List.mem_singleton.mp this
    have hkinds : ∀ kind ∈ [TokenKind.closeParen, .closeBrace], kind ∈ Nesting.bracketKinds := by
      decide
    exact absurd (hkinds _ hclose) h

theorem Counted.cons (h : Counted [m] u) (hs : Counted ms v) : Counted (m :: ms) (u ++ v) := by
  have hleaves : m.leaves.length = u.length := by rw [← leavesAll_lone, h.leaves]
  have hall (i : Nat) : allBracketsFrom i (m :: ms) =
      m.bracketsFrom i ++ allBracketsFrom (i + u.length) ms := by
    rw [allBracketsFrom, hleaves]
  have first (i : Nat) : ∀ b ∈ m.bracketsFrom i, b.Within i u := fun b hb =>
    h.within i b (by rwa [allBracketsFrom_lone])
  refine ⟨?_, fun i b hb => ?_, fun nesting => ?_, fun nesting i k hk => ?_,
    fun nesting k l hl hclose => ?_⟩
  · rw [leavesAll, List.length_append, List.length_append, hleaves, hs.leaves]
  · rw [hall] at hb
    rcases List.mem_append.mp hb with hb | hb
    · exact (first i b hb).append v
    · exact (hs.within _ b hb).behind
  · rw [Nesting.after_append, hs.balanced, h.balanced]
  · rw [hall, Brackets.openIn_append]
    by_cases hku : k < u.length
    · -- what comes behind the first match is not open yet
      have hbehind : Brackets.openIn (allBracketsFrom (i + u.length) ms) (i + k) = 0 :=
        Brackets.openIn_eq_zero fun b hb => by
          have := (hs.within _ b hb).le_opening
          omega
      have hcounts := h.counts nesting i k hku
      rw [allBracketsFrom_lone] at hcounts
      rw [List.take_append_of_le_length (by omega), hcounts, hbehind]
      omega
    · -- what the first match opens it has closed again
      have hfront : Brackets.openIn (m.bracketsFrom i) (i + k) = 0 :=
        Brackets.openIn_eq_zero fun b hb => by
          have := (first i b hb).closing_lt
          omega
      rw [List.length_append] at hk
      obtain ⟨j, rfl⟩ := Nat.exists_eq_add_of_le (Nat.not_lt.mp hku)
      have htake : (u ++ v).take (u.length + j + 1) = u ++ v.take (j + 1) := by
        rw [Nat.add_assoc, List.take_length_add_append]
      rw [htake, Nesting.after_append, hs.counts _ (i + u.length) j (by omega), h.balanced, hfront,
        Nat.add_assoc i]
      omega
  · by_cases hku : k < u.length
    · rw [List.getElem?_append_left hku] at hl
      rw [List.take_append_of_le_length (by omega)]
      exact h.pos nesting k l hl hclose
    · obtain ⟨j, rfl⟩ := Nat.exists_eq_add_of_le (Nat.not_lt.mp hku)
      rw [List.getElem?_append_right (by omega), Nat.add_sub_cancel_left] at hl
      rw [List.take_length_add_append, Nesting.after_append]
      exact hs.pos _ j l hl hclose

theorem Counted.group (h : Counted ms u) : Counted [Match.group ms] u := by
  have hall (i : Nat) : allBracketsFrom i [Match.group ms] = allBracketsFrom i ms := by
    rw [allBracketsFrom_lone, bracketsFrom]
  refine ⟨by rw [leavesAll_lone, Match.leaves, h.leaves], fun i => ?_, h.balanced,
    fun nesting i => ?_, h.pos⟩
  · rw [hall]
    exact h.within i
  · rw [hall]
    exact h.counts nesting i

theorem Counted.rule (h : Counted ms u) (hr : r ∉ Rule.betweenBrackets) :
    Counted [Match.rule r ms] u := by
  have hall (i : Nat) : allBracketsFrom i [Match.rule r ms] = allBracketsFrom i ms := by
    rw [allBracketsFrom_lone, bracketsFrom, if_neg hr]
  refine ⟨by rw [leavesAll_lone, Match.leaves, h.leaves], fun i => ?_, h.balanced,
    fun nesting i => ?_, h.pos⟩
  · rw [hall]
    exact h.within i
  · rw [hall]
    exact h.counts nesting i

section Between

/-- The brackets of a rule between brackets are its own and those inside. -/
theorem bracketsFrom_between (hr : r ∈ Rule.betweenBrackets) (i : Nat) :
    (Match.rule r [token o.token, m, token c.token]).bracketsFrom i =
      { opening := i, closing := i + m.leaves.length + 1 } :: m.bracketsFrom (i + 1) := by
  rw [bracketsFrom, if_pos hr]
  simp [allBracketsFrom, bracketsFrom]
  omega

variable (h : Counted [m] u) (hr : r ∈ Rule.betweenBrackets)
  (ho : o.kind ∈ [.openParen, .openBrace]) (hc : c.kind ∈ [.closeParen, .closeBrace])

include h

theorem Counted.length_leaves : m.leaves.length = u.length := by
  rw [← leavesAll_lone, h.leaves]

theorem Counted.within_lone (i : Nat) : ∀ b ∈ m.bracketsFrom i, b.Within i u := fun b hb =>
  h.within i b (by rwa [allBracketsFrom_lone])

include ho

theorem Counted.balanced_between (hc : c.kind ∈ [.closeParen, .closeBrace]) (nesting : Nesting) :
    (nesting.after (o :: (u ++ [c]))).brackets = nesting.brackets := by
  rw [Nesting.after_cons, Nesting.after_append, Nesting.after_cons, Nesting.after_nil,
    Nesting.next_closing hc, h.balanced, Nesting.next_opening ho]
  rfl

include hr hc

theorem Counted.within_between (i : Nat) :
    ∀ b ∈ (Match.rule r [token o.token, m, token c.token]).bracketsFrom i,
      b.Within i (o :: (u ++ [c])) := by
  intro b hb
  rw [bracketsFrom_between hr, h.length_leaves] at hb
  rcases List.mem_cons.mp hb with rfl | hb
  · have hindex : i + u.length + 1 - i = u.length + 1 := by omega
    refine ⟨Nat.le_refl i, ⟨o, by simp, ho⟩, by simp only; omega, ⟨c, ?_, hc⟩⟩
    simp only [hindex, List.getElem?_cons_succ, List.getElem?_concat_length]
  · exact Brackets.Within.behind (u := [o]) ((h.within_lone (i + 1) b hb).append [c])

/-- A rule between brackets is open from its opening bracket up to the closing one. -/
theorem Counted.counts_between (nesting : Nesting) (i k : Nat) (hk : k < u.length + 2) :
    (nesting.after ((o :: (u ++ [c])).take (k + 1))).brackets = nesting.brackets +
      Brackets.openIn ((Match.rule r [token o.token, m, token c.token]).bracketsFrom i) (i + k) := by
  have inner := h.within_lone (i + 1)
  rw [bracketsFrom_between hr, h.length_leaves, Brackets.openIn_cons, List.take_succ_cons,
    Nesting.after_cons, Nesting.next_opening ho]
  rcases k with - | k
  · -- at the opening bracket nothing inside is open
    have hinside : Brackets.openIn (m.bracketsFrom (i + 1)) (i + 0) = 0 :=
      Brackets.openIn_eq_zero fun b hb => by
        have := (inner b hb).le_opening
        omega
    have hhere : Brackets.isOpenAt { opening := i, closing := i + u.length + 1 } (i + 0) := by
      simp only [Brackets.isOpenAt, Bool.and_eq_true, decide_eq_true_eq]
      omega
    rw [hinside, if_pos hhere, List.take_zero, Nesting.after_nil]
  · by_cases hku : k < u.length
    · have hcounts := h.counts ⟨nesting.brackets + 1, 0⟩ (i + 1) k hku
      have hindex : i + 1 + k = i + (k + 1) := by omega
      have hhere :
          Brackets.isOpenAt { opening := i, closing := i + u.length + 1 } (i + (k + 1)) := by
        simp only [Brackets.isOpenAt, Bool.and_eq_true, decide_eq_true_eq]
        omega
      rw [allBracketsFrom_lone, hindex] at hcounts
      rw [List.take_append_of_le_length (by omega), hcounts, if_pos hhere, Nat.add_assoc,
        Nat.add_comm 1]
    · -- at the closing bracket nothing is open any more
      have hinside : Brackets.openIn (m.bracketsFrom (i + 1)) (i + (k + 1)) = 0 :=
        Brackets.openIn_eq_zero fun b hb => by
          have := (inner b hb).closing_lt
          omega
      have hhere :
          ¬ Brackets.isOpenAt { opening := i, closing := i + u.length + 1 } (i + (k + 1)) := by
        simp only [Brackets.isOpenAt, Bool.and_eq_true, decide_eq_true_eq]
        omega
      have hwhole : (u ++ [c]).take (k + 1) = u ++ [c] :=
        List.take_of_length_le (by rw [List.length_append, List.length_singleton]; omega)
      have hbalanced := h.balanced_between ho hc nesting
      rw [Nesting.after_cons, Nesting.next_opening ho] at hbalanced
      rw [hinside, if_neg hhere, hwhole, hbalanced, Nat.add_zero]

omit hr hc

theorem Counted.pos_between (nesting : Nesting) (k : Nat) (l : Lexeme)
    (hl : (o :: (u ++ [c]))[k]? = some l) (hclose : l.kind ∈ [.closeParen, .closeBrace]) :
    0 < (nesting.after ((o :: (u ++ [c])).take k)).brackets := by
  rcases k with - | k
  · rw [List.getElem?_cons_zero, Option.some.injEq] at hl
    subst hl
    have hkinds : ∀ kind ∈ [TokenKind.openParen, .openBrace],
        kind ∉ [TokenKind.closeParen, .closeBrace] := by decide
    exact absurd hclose (hkinds _ ho)
  · rw [List.getElem?_cons_succ] at hl
    rw [List.take_succ_cons, Nesting.after_cons]
    by_cases hku : k < u.length
    · rw [List.getElem?_append_left hku] at hl
      rw [List.take_append_of_le_length (by omega)]
      exact h.pos _ k l hl hclose
    · have hlt := (List.getElem?_eq_some_iff.mp hl).1
      rw [List.length_append, List.length_singleton] at hlt
      obtain rfl : k = u.length := by omega
      rw [List.take_left, h.balanced, Nesting.next_opening ho]
      exact Nat.succ_pos _

include hr hc

theorem Counted.between :
    Counted [Match.rule r [token o.token, m, token c.token]] (o :: (u ++ [c])) := by
  refine ⟨?_, fun i => ?_, h.balanced_between ho hc, fun nesting i k hk => ?_,
    h.pos_between ho⟩
  · simp [h.length_leaves]
  · rw [allBracketsFrom_lone]
    exact h.within_between hr ho hc i
  · rw [List.length_cons, List.length_append, List.length_singleton] at hk
    rw [allBracketsFrom_lone]
    exact h.counts_between hr ho hc nesting i k hk

end Between

end Counted

/-! ### Prefix operations inside one another -/

/-- How many prefix operations stand directly inside one another, the match the outermost. -/
def signRun : Match → Nat
  | rule .operation [_, operand] => operand.signRun + 1
  | _ => 0

/-- The second match occurs in the first with so many rules between brackets around it. -/
inductive Encloses : Match → Nat → Match → Prop where
  | self (m : Match) : Encloses m 0 m
  | group {part x : Match} {parts : List Match} {b : Nat} (mem : part ∈ parts)
      (inside : Encloses part b x) : Encloses (.group parts) b x
  | rule {part x : Match} {parts : List Match} {b : Nat} {r : Rule} (mem : part ∈ parts)
      (inside : Encloses part b x) :
      Encloses (.rule r parts) (if r ∈ Rule.betweenBrackets then b + 1 else b) x

/-- Everywhere in the match the rules between brackets around a place and the prefix operations
that stand inside one another there are at most `room`. -/
def NestsWithin (room : Nat) (m : Match) : Prop :=
  ∀ b x, m.Encloses b x → b + x.signRun ≤ room

section NestsWithin

variable {room : Nat} {parts : List Match} {r : Rule}

theorem nestsWithin_absent (room : Nat) : absent.NestsWithin room := by
  intro b x h
  cases h
  exact Nat.zero_le _

theorem nestsWithin_token (room : Nat) (t : Token) : (token t).NestsWithin room := by
  intro b x h
  cases h
  exact Nat.zero_le _

theorem nestsWithin_group (h : ∀ part ∈ parts, part.NestsWithin room) :
    (group parts).NestsWithin room := by
  intro b x hx
  cases hx with
  | self => exact Nat.zero_le _
  | group mem inside => exact h _ mem _ _ inside

theorem nestsWithin_rule (hr : r ∉ Rule.betweenBrackets)
    (hroot : (Match.rule r parts).signRun ≤ room) (h : ∀ part ∈ parts, part.NestsWithin room) :
    (Match.rule r parts).NestsWithin room := by
  intro b x hx
  cases hx with
  | self => simpa using hroot
  | rule mem inside =>
    rw [if_neg hr]
    exact h _ mem _ _ inside

/-- A rule between brackets needs room for one level more than what is inside. -/
theorem nestsWithin_between (hr : r ∈ Rule.betweenBrackets)
    (h : ∀ part ∈ parts, part.NestsWithin room) : (Match.rule r parts).NestsWithin (room + 1) := by
  intro b x hx
  cases hx with
  | self =>
    have hroot : (Match.rule r parts).signRun = 0 := by
      simp only [Rule.betweenBrackets, List.mem_cons, List.not_mem_nil, or_false] at hr
      rcases hr with rfl | rfl <;> rfl
    omega
  | @rule part _ _ b _ mem inside =>
    have := h _ mem _ _ inside
    rw [if_pos hr]
    omega

end NestsWithin

end Match

/-! ### Prefix operators in the tokens -/

namespace Nesting

/-- The length of the run of prefix operators that ends at the token with an index. -/
def signsUpTo (ls : List Lexeme) (i : Nat) : Nat :=
  ((ls.take (i + 1)).rtakeWhile fun l => decide (l.kind ∈ Grammar.prefixes)).length

/-- The run that the check counts is the one that ends at the token. -/
theorem run_after (ls : List Lexeme) : (Nesting.after {} ls).run =
    (ls.rtakeWhile fun l => decide (l.kind ∈ Grammar.prefixes)).length := by
  induction ls using List.reverseRecOn with
  | nil => rfl
  | append_singleton ls l ih =>
    rw [after_append, after_cons, after_nil, List.rtakeWhile_concat]
    by_cases hl : l.kind ∈ Grammar.prefixes
    · rw [next_sign hl, if_pos (by simpa using hl), List.length_append, List.length_singleton, ih]
    · rw [if_neg (by simpa using hl), next, if_neg hl]
      rfl

/-- The check refuses the first token at which the levels exceed the limit. -/
theorem tooDeepFrom?_eq_some {nesting : Nesting} {ls : List Lexeme} {l : Lexeme}
    (h : nesting.tooDeepFrom? ls = some l) :
    ∃ i, ls[i]? = some l ∧ limit < (nesting.after (ls.take (i + 1))).levels ∧
      ∀ j < i, (nesting.after (ls.take (j + 1))).levels ≤ limit := by
  induction ls generalizing nesting with
  | nil => cases h
  | cons first ls ih =>
    rw [tooDeepFrom?] at h
    split at h
    · rename_i hdeep
      cases h
      exact ⟨0, rfl, hdeep, fun j hj => absurd hj (Nat.not_lt_zero j)⟩
    · rename_i hfits
      obtain ⟨i, hi, hdeep, hbefore⟩ := ih h
      refine ⟨i + 1, hi, hdeep, fun j hj => ?_⟩
      rcases j with - | j
      · exact Nat.not_lt.mp hfits
      · exact hbefore j (by omega)

/-- Prefix operators at the front of tokens that fit need room behind those before them. -/
theorem Fits.signs_le {nesting : Nesting} {u : List Lexeme} (h : nesting.Fits u)
    (hlevels : nesting.levels ≤ limit) :
    nesting.levels + (u.takeWhile fun l => decide (l.kind ∈ Grammar.prefixes)).length ≤ limit := by
  induction u generalizing nesting with
  | nil => exact hlevels
  | cons l u ih =>
    obtain ⟨hhere, hrest⟩ := fits_cons.mp h
    rw [List.takeWhile_cons]
    by_cases hl : l.kind ∈ Grammar.prefixes
    · have := ih hrest hhere
      rw [next_sign hl] at this
      rw [if_pos (by simpa using hl), List.length_cons]
      simp only [levels] at this ⊢
      omega
    · rw [if_neg (by simpa using hl)]
      exact hlevels

end Nesting

/-! ### The matches of phrases -/

namespace Grammar

open Match

variable {n : Nonterminal} {u : List Lexeme} {m : Match}

theorem rule_mem_of_rule {rules : List (TokenKind × Rule)} {kind : TokenKind} {r : Rule}
    (h : (kind, r) ∈ rules) : r ∈ rules.map (·.2) :=
  List.mem_map.mpr ⟨(kind, r), h, rfl⟩

/-- The rules of single tokens and of paths are not between brackets. -/
theorem not_betweenBrackets {rules : List (TokenKind × Rule)} {kind : TokenKind} {r : Rule}
    (hrules : ∀ r ∈ rules.map (·.2), r ∉ Rule.betweenBrackets) (h : (kind, r) ∈ rules) :
    r ∉ Rule.betweenBrackets :=
  hrules r (rule_mem_of_rule h)

theorem allCounted_parts {parts : List (List Lexeme × Match)}
    (h : ∀ x ∈ parts, Counted [x.2] x.1) :
    Counted (parts.map (·.2)) (parts.map (·.1)).flatten := by
  induction parts with
  | nil => exact counted_nil
  | cons x parts ih =>
    exact (h x List.mem_cons_self).cons (ih fun y hy => h y (List.mem_cons_of_mem x hy))

theorem Parses.counted (h : Parses n u m) : Counted [m] u := by
  have plain {kinds : List TokenKind} {l : Lexeme}
      (hkinds : ∀ kind ∈ kinds, kind ∉ Nesting.bracketKinds) (hl : l.kind ∈ kinds) :
      Counted [.token l.token] [l] := counted_token (hkinds _ hl)
  have statement {m : Match} {u : List Lexeme} (h : Counted [m] u) :
      Counted [.rule .statement [m.grouped]] u := h.group.rule (by decide)
  induction h with
  | literal rule =>
    exact ((plain (by decide) (kind_mem_of_rule rule)).rule
      (not_betweenBrackets (by decide) rule)).group
  | parentheses opening _ closing ih =>
    exact (ih.between (by decide) (by rw [opening]; decide) (by rw [closing]; decide)).group
  | operand _ ih => exact ih.rule (by decide)
  | unary sign _ ih =>
    exact ((plain (by decide) sign).group.cons ih).rule (by decide)
  | tighter _ ih => exact ih.rule (by decide)
  | @binary k u v o a b _ sign _ ihl ihr =>
    have hnot : ∀ k < 6, ∀ kind ∈ operators k, kind ∉ Nesting.bracketKinds := by decide
    have op := counted_token (hnot k (lt_of_mem_operators sign) _ sign)
    exact (ihl.cons (op.group.cons ihr)).rule (by decide)
  | @assignment name equals semicolon u m name_kind equals_kind _ semicolon_kind ih =>
    have name := (counted_token (l := name) (by rw [name_kind]; decide)).rule (r := .identifier)
      (by decide)
    have equals := counted_token (l := equals) (by rw [equals_kind]; decide)
    have semicolon := counted_token (l := semicolon) (by rw [semicolon_kind]; decide)
    exact statement ((name.cons (equals.cons (ih.cons semicolon))).rule (by decide))
  | @path word file semicolon r rule file_kind semicolon_kind =>
    have word := plain (by decide) (kind_mem_of_rule rule)
    have file := (counted_token (l := file) (by rw [file_kind]; decide)).rule (r := .path)
      (by decide)
    have last : Counted [.ofOption (semicolon.map (.token ·.token))] semicolon.toList := by
      cases semicolon with
      | none => exact counted_absent
      | some s => exact counted_token (by rw [semicolon_kind s rfl]; decide)
    exact statement ((word.cons (file.cons last)).rule (not_betweenBrackets (by decide) rule))
  | block opening _ closing ih =>
    have statements := (allCounted_parts ih).group
    exact statement (statements.between (by decide) (by rw [opening]; decide)
      (by rw [closing]; decide))
  | comment rule =>
    exact statement ((plain (by decide) (kind_mem_of_rule rule)).rule
      (not_betweenBrackets (by decide) rule))

/-- Prefix operations that stand directly inside one another begin with as many operators. -/
theorem Parses.signRun_le (h : Parses n u m) :
    m.signRun ≤ (u.takeWhile fun l => decide (l.kind ∈ prefixes)).length := by
  induction h with
  | @unary o u m sign _ ih =>
    rw [List.takeWhile_cons, if_pos (by simpa using sign), List.length_cons]
    exact Nat.succ_le_succ ih
  | _ => exact Nat.zero_le _

/-- Statements one behind the other fit each for itself. -/
theorem fits_of_mem {parts : List (List Lexeme × Match)} {b : Nat}
    (hparts : ∀ x ∈ parts, Parses .statement x.1 x.2)
    (h : (Nesting.mk b 0).Fits (parts.map (·.1)).flatten) :
    ∀ x ∈ parts, (Nesting.mk b 0).Fits x.1 := by
  induction parts with
  | nil => simp
  | cons y parts ih =>
    rw [List.map_cons, List.flatten_cons, Nesting.fits_append,
      (hparts y List.mem_cons_self).nesting_after] at h
    have later := ih (fun x hx => hparts x (List.mem_cons_of_mem y hx)) h.2
    exact List.forall_mem_cons.mpr ⟨h.1, later⟩

/-- A phrase that fits behind open brackets nests within what is free of the limit. -/
theorem Parses.nestsWithin (h : Parses n u m) : ∀ (nesting : Nesting) (free : Nat),
    nesting.brackets + free = Nesting.limit → nesting.levels ≤ Nesting.limit → nesting.Fits u →
    m.NestsWithin free := by
  have lone {m : Match} {r : Rule} {free : Nat} (hr : r ∉ Rule.betweenBrackets)
      (h : m.NestsWithin free) : (Match.rule r [m]).NestsWithin free :=
    nestsWithin_rule hr (by cases r <;> exact Nat.zero_le _) (List.forall_mem_singleton.mpr h)
  have grouped {m : Match} {free : Nat} (h : m.NestsWithin free) : m.grouped.NestsWithin free :=
    nestsWithin_group (List.forall_mem_singleton.mpr h)
  have opened {nesting : Nesting} {o : Lexeme} {u v : List Lexeme} {free : Nat}
      (ho : o.kind ∈ [.openParen, .openBrace]) (hfree : nesting.brackets + free = Nesting.limit)
      (hfits : nesting.Fits (o :: (u ++ v))) : ∃ free', free = free' + 1 ∧
        (Nesting.mk (nesting.brackets + 1) 0).levels ≤ Nesting.limit ∧
        (Nesting.mk (nesting.brackets + 1) 0).Fits u := by
    rw [Nesting.fits_cons, Nesting.next_opening ho, Nesting.fits_append] at hfits
    obtain ⟨hlevels, hinner, -⟩ := hfits
    have hopen := hlevels
    simp only [Nesting.levels] at hopen
    exact ⟨free - 1, by omega, hlevels, hinner⟩
  induction h with
  | literal rule =>
    intro nesting free _ _ _
    exact grouped (lone (not_betweenBrackets (by decide) rule) (nestsWithin_token free _))
  | parentheses opening _ closing ih =>
    intro nesting free hfree _ hfits
    obtain ⟨free, rfl, hlevels, hinner⟩ := opened (by rw [opening]; decide) hfree hfits
    have inner := ih _ free (by simp only; omega) hlevels hinner
    exact grouped (nestsWithin_between (by decide) (by simp [inner, nestsWithin_token]))
  | operand _ ih =>
    intro nesting free hfree hlevels hfits
    exact lone (by decide) (ih nesting free hfree hlevels hfits)
  | @unary o u m sign operand ih =>
    intro nesting free hfree hlevels hfits
    have hrun := (Parses.unary sign operand).signRun_le
    have hsigns := hfits.signs_le hlevels
    obtain ⟨hhere, hrest⟩ := Nesting.fits_cons.mp hfits
    have inner := ih _ free (by rw [Nesting.next_sign sign]; exact hfree) hhere hrest
    simp only [Nesting.levels] at hsigns
    exact nestsWithin_rule (by decide) (by omega)
      (by simp [inner, grouped (nestsWithin_token free o.token)])
  | tighter _ ih =>
    intro nesting free hfree hlevels hfits
    exact lone (by decide) (ih nesting free hfree hlevels hfits)
  | @binary k u v o a b left sign right ihl ihr =>
    intro nesting free hfree hlevels hfits
    rw [Nesting.fits_append, Nesting.fits_cons, left.nesting_after] at hfits
    obtain ⟨hfront, hoperator, hbehind⟩ := hfits
    have hnot : ∀ k < 6, ∀ kind ∈ operators k, kind ∉ Nesting.bracketKinds := by decide
    have hbrackets : (Nesting.next ⟨nesting.brackets, 0⟩ o.kind).brackets = nesting.brackets :=
      Nesting.brackets_next (hnot k (lt_of_mem_operators sign) _ sign)
    have first := ihl nesting free hfree hlevels hfront
    have second := ihr _ free (by rw [hbrackets]; exact hfree) hoperator hbehind
    exact nestsWithin_rule (by decide) (Nat.zero_le _)
      (by simp [first, second, grouped (nestsWithin_token free o.token)])
  | assignment name_kind equals_kind _ semicolon_kind ih =>
    intro nesting free hfree _ hfits
    rw [Nesting.fits_cons, Nesting.fits_cons, Nesting.fits_append, name_kind, equals_kind,
      Nesting.next_plain (by decide), Nesting.next_plain (by decide)] at hfits
    have value := ih ⟨nesting.brackets, 0⟩ free hfree hfits.2.1 hfits.2.2.1
    have name (t : Token) := lone (r := .identifier) (by decide) (nestsWithin_token free t)
    exact lone (by decide) (grouped (nestsWithin_rule (by decide) (Nat.zero_le _)
      (by simp [value, name, nestsWithin_token])))
  | @path word file semicolon r rule file_kind semicolon_kind =>
    intro nesting free _ _ _
    have path := lone (r := .path) (by decide) (nestsWithin_token free file.token)
    have last : (Match.ofOption (semicolon.map (.token ·.token))).NestsWithin free := by
      cases semicolon with
      | none => exact nestsWithin_absent free
      | some s => exact nestsWithin_token free s.token
    exact lone (by decide) (grouped (nestsWithin_rule (not_betweenBrackets (by decide) rule)
      (by cases r <;> exact Nat.zero_le _) (by simp [path, last, nestsWithin_token])))
  | @block o c parts opening statements closing ih =>
    intro nesting free hfree _ hfits
    obtain ⟨free, rfl, hlevels, hinner⟩ := opened (by rw [opening]; decide) hfree hfits
    have each := fits_of_mem statements hinner
    have inside : (Match.group (parts.map (·.2))).NestsWithin free :=
      nestsWithin_group (List.forall_mem_map.mpr fun x hx =>
        ih x hx _ free (by simp only; omega) hlevels (each x hx))
    exact lone (by decide) (grouped (nestsWithin_between (by decide)
      (by simp [inside, nestsWithin_token])))
  | comment rule =>
    intro nesting free _ _ _
    exact lone (by decide) (grouped (lone (not_betweenBrackets (by decide) rule)
      (nestsWithin_token free _)))

theorem IsProgram.counted {ls : List Lexeme} (h : IsProgram ls m) : Counted [m] ls := by
  obtain ⟨parts, hparts, rfl, rfl⟩ := h
  exact (allCounted_parts fun x hx => (hparts x hx).counted).group.rule (by decide)

theorem IsProgram.nestsWithin {ls : List Lexeme} (h : IsProgram ls m)
    (hfits : Nesting.tooDeep? ls = none) : m.NestsWithin Nesting.limit := by
  obtain ⟨parts, hparts, rfl, rfl⟩ := h
  have each := fits_of_mem hparts hfits
  have statements : (Match.group (parts.map (·.2))).NestsWithin Nesting.limit :=
    nestsWithin_group (List.forall_mem_map.mpr fun x hx =>
      (hparts x hx).nestsWithin _ _ (Nat.zero_add _) (Nat.zero_le _) (each x hx))
  exact nestsWithin_rule (by decide) (Nat.zero_le _) (List.forall_mem_singleton.mpr statements)

end Grammar

/-! ### The check and the match -/

open Grammar in
/-- **The nesting check counts what the match nests.** Behind every token of a program as many
brackets are counted as blocks and parentheses of its match are open there; no closing bracket
finds the count at zero, and it ends at zero. If the check passes, the blocks and parentheses
around any place of the match and the prefix operations inside one another there are at most the
limit together. If it fails, it shows the first token at which the open blocks and parentheses
and the run of prefix operators that ends there exceed the limit. -/
theorem nesting_of_match {ls : List Lexeme} {m : Match} (h : program.run ls = .ok m) :
    (∀ b ∈ m.brackets, b.Within 0 ls) ∧
    (∀ i < ls.length, (Nesting.after {} (ls.take (i + 1))).brackets = m.openAt i) ∧
    (∀ i l, ls[i]? = some l → l.kind ∈ [.closeParen, .closeBrace] →
      0 < (Nesting.after {} (ls.take i)).brackets) ∧
    (Nesting.after {} ls).brackets = 0 ∧
    match Nesting.tooDeep? ls with
    | none => ∀ b x, m.Encloses b x → b + x.signRun ≤ Nesting.limit
    | some l => ∃ i, ls[i]? = some l ∧
        Nesting.limit < m.openAt i + Nesting.signsUpTo ls i ∧
        (∀ j < i, m.openAt j + Nesting.signsUpTo ls j ≤ Nesting.limit) ∧
        matchProgram ls = .error (.tooDeep Nesting.limit l.token.position.toOption) := by
  have hprogram := program_sound h
  have counted := hprogram.counted
  have hcounts (i : Nat) (hi : i < ls.length) :
      (Nesting.after {} (ls.take (i + 1))).brackets = m.openAt i := by
    have := counted.counts {} 0 i hi
    rwa [Match.allBracketsFrom_lone, Nat.zero_add, Nat.zero_add] at this
  have hlevels (i : Nat) (hi : i < ls.length) :
      (Nesting.after {} (ls.take (i + 1))).levels = m.openAt i + Nesting.signsUpTo ls i := by
    rw [Nesting.levels, hcounts i hi, Nesting.run_after, Nesting.signsUpTo]
  refine ⟨counted.within_lone 0, hcounts, counted.pos {}, counted.balanced {}, ?_⟩
  cases hdeep : Nesting.tooDeep? ls with
  | none => exact hprogram.nestsWithin hdeep
  | some l =>
    obtain ⟨i, hi, hexceeds, hbefore⟩ := Nesting.tooDeepFrom?_eq_some hdeep
    have hlt := (List.getElem?_eq_some_iff.mp hi).1
    refine ⟨i, hi, hlevels i hlt ▸ hexceeds, fun j hj => ?_, ?_⟩
    · exact hlevels j (by omega) ▸ hbefore j hj
    · rw [matchProgram, hdeep]

/-- In a block, in parentheses and behind a prefix operator, two brackets are open. -/
theorem nesting_of_match_sample : ∃ ls m, lex "{ x = (-y); }" = .ok ls ∧
    Grammar.program.run ls = .ok m ∧ m.openAt 4 = 2 ∧ Nesting.signsUpTo ls 4 = 1 ∧
    (Nesting.after {} (ls.take 5)).brackets = 2 ∧ (Nesting.after {} ls).brackets = 0 ∧
    ∀ b x, m.Encloses b x → b + x.signRun ≤ Nesting.limit := by
  have hcheck : (lex "{ x = (-y); }").toOption.map (fun ls => (ls.length,
      Nesting.signsUpTo ls 4, (Nesting.tooDeep? ls).isNone,
      (Grammar.program.run ls).toOption.map (·.openAt 4))) = some (9, 1, true, some 2) := by
    decide +kernel
  obtain ⟨ls, hlex, hfound⟩ := exists_lex hcheck
  simp only [Prod.mk.injEq, Option.isNone_iff_eq_none, Option.map_eq_some_iff] at hfound
  obtain ⟨hlength, hsigns, hdeep, m, hm, hopen⟩ := hfound
  cases hrun : Grammar.program.run ls with
  | error e =>
    rw [hrun] at hm
    cases hm
  | ok m' =>
    rw [hrun] at hm
    cases hm
    obtain ⟨-, hcounts, -, hend, hnests⟩ := nesting_of_match hrun
    rw [hdeep] at hnests
    exact ⟨ls, m, hlex, hrun, hopen, hsigns, (hcounts 4 (by omega)).trans hopen, hend, hnests⟩

end OpenScad
