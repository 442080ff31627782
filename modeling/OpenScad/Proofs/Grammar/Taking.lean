/-
# What a parser takes at least

A parser is complete for a list of tokens if it takes that list from the front
of whatever begins with it, and perhaps more. It may take more only where what
follows begins with one of the kinds that continue it: a statement behind which
no semicolon stands is taken exactly, an operand exactly unless an operator
follows that binds tighter.

So a sequence of parsers is complete if none is continued by what the next one
begins with. A choice is complete if its alternatives begin with different
kinds, since then at most one of them succeeds. A repetition goes on as long
as its parser succeeds, which is past the last part only if something follows
that a part can begin with.

Key definitions: `Stops`, `Parser.Leaves`, `Parser.Takes`, `Parser.OnlyOn`.
Key theorems: `Parser.Takes.bind`, `Parser.Takes.choice`, `Parser.Takes.many`.
-/
import OpenScad.Proofs.Grammar.Recognition

namespace OpenScad

/-- The tokens do not begin with one of the kinds. -/
def Stops (kinds : List TokenKind) (ls : List Lexeme) : Prop := ∀ l ∈ ls.head?, l.kind ∉ kinds

theorem stops_nil (ls : List Lexeme) : Stops [] ls := fun _ _ => List.not_mem_nil

theorem stops_cons {kinds : List TokenKind} {l : Lexeme} (h : l.kind ∉ kinds)
    (ls : List Lexeme) : Stops kinds (l :: ls) := by
  intro m hm
  cases hm
  exact h

theorem stops_append {kinds more : List TokenKind} {ls : List Lexeme} :
    Stops (kinds ++ more) ls ↔ Stops kinds ls ∧ Stops more ls := by
  simp only [Stops, List.mem_append, not_or]
  exact ⟨fun h => ⟨fun l hl => (h l hl).1, fun l hl => (h l hl).2⟩,
    fun h l hl => ⟨h.1 l hl, h.2 l hl⟩⟩

namespace Parser

variable {α β : Type}

/-- The parser succeeds and leaves the tokens `rest`. -/
def Leaves (p : Parser α) (i : Nat) (ls rest : List Lexeme) : Prop :=
  ∃ a j, (p i ls).result = some (a, j, rest)

/-- The parser fails where the kind does not come first. -/
def OnlyOn (p : Parser α) (kind : TokenKind) : Prop :=
  ∀ i ls, Stops [kind] ls → (p i ls).result = none

/-- The parser takes the tokens from the front, and more only where what follows them begins
with one of the kinds. -/
def Takes (p : Parser α) (kinds : List TokenKind) (u : List Lexeme) : Prop :=
  ∀ i w, ∃ x rest, w = x ++ rest ∧ Leaves p i (u ++ w) rest ∧ (Stops kinds w → x = [])

/-! ### Failing -/

section Failing

variable {p : Parser α} {i : Nat} {ls : List Lexeme} {kind : TokenKind}

theorem fails_bind {f : α → Parser β} (h : (p i ls).result = none) :
    ((p.bind f) i ls).result = none := by
  unfold bind
  simp only [h]

theorem fails_map {f : α → β} (h : (p i ls).result = none) : ((p.map f) i ls).result = none := by
  simp only [map, h, Option.map_none]

theorem result_orElse_of_none {q : Parser α} (h : (p i ls).result = none) :
    ((p.orElse q) i ls).result = (q i ls).result := by
  unfold Parser.orElse
  simp only [h]

theorem result_orElse_of_leaves {q : Parser α} {a : α} {j : Nat} {rest : List Lexeme}
    (h : (p i ls).result = some (a, j, rest)) :
    ((p.orElse q) i ls).result = some (a, j, rest) := by
  unfold Parser.orElse
  simp only [h]

theorem fails_accept {f : Lexeme → Option α} (h : ∀ l ∈ ls.head?, f l = none) :
    ((accept f) i ls).result = none := by
  cases ls with
  | nil => rfl
  | cons l rest => simp only [accept, h l rfl]

theorem OnlyOn.bind {f : α → Parser β} (h : p.OnlyOn kind) : (p.bind f).OnlyOn kind :=
  fun i ls hls => fails_bind (h i ls hls)

theorem OnlyOn.map {f : α → β} (h : p.OnlyOn kind) : (p.map f).OnlyOn kind :=
  fun i ls hls => fails_map (h i ls hls)

/-- A choice fails where no alternative can begin. -/
theorem fails_choice : ∀ {ps : List (TokenKind × Parser α)}, (∀ x ∈ ps, x.2.OnlyOn x.1) →
    Stops (ps.map (·.1)) ls → ((choice (ps.map (·.2))) i ls).result = none
  | [], _, _ => rfl
  | (kind, p) :: ps, h, hls => by
    obtain ⟨hkind, hmore⟩ := stops_append.mp (show Stops ([kind] ++ ps.map (·.1)) ls from hls)
    rw [List.map_cons, choice,
      result_orElse_of_none (h _ List.mem_cons_self i ls hkind)]
    exact fails_choice (fun x hx => h x (List.mem_cons_of_mem _ hx)) hmore

end Failing

/-! ### Taking -/

section Taking

variable {p : Parser α} {kinds more : List TokenKind} {u v : List Lexeme}

theorem takes_accept {f : Lexeme → Option α} {l : Lexeme} {a : α} (h : f l = some a) :
    (accept f).Takes [] [l] := by
  intro i w
  refine ⟨[], w, rfl, ⟨a, i + 1, ?_⟩, fun _ => rfl⟩
  simp only [accept, List.cons_append, List.nil_append, h]

theorem Takes.map {f : α → β} (h : p.Takes kinds u) : (p.map f).Takes kinds u := by
  intro i w
  obtain ⟨x, rest, hw, ⟨a, j, hr⟩, hstop⟩ := h i w
  exact ⟨x, rest, hw, ⟨f a, j, result_map.mpr ⟨a, hr, rfl⟩⟩, hstop⟩

theorem Takes.orElse {q : Parser α} (h : p.Takes kinds u) : (p.orElse q).Takes kinds u := by
  intro i w
  obtain ⟨x, rest, hw, ⟨a, j, hr⟩, hstop⟩ := h i w
  exact ⟨x, rest, hw, ⟨a, j, result_orElse_of_leaves hr⟩, hstop⟩

theorem Takes.orElse_of_fails {q : Parser α} (hp : ∀ i w, (p i (u ++ w)).result = none)
    (h : q.Takes kinds u) : (p.orElse q).Takes kinds u := by
  intro i w
  obtain ⟨x, rest, hw, ⟨a, j, hr⟩, hstop⟩ := h i w
  exact ⟨x, rest, hw, ⟨a, j, by rw [result_orElse_of_none (hp i w), hr]⟩, hstop⟩

/-- What nothing continues is taken as it is, whatever follows. -/
theorem Takes.exact (h : p.Takes [] u) : p.Takes kinds u := by
  intro i w
  obtain ⟨x, rest, hw, hr, hstop⟩ := h i w
  exact ⟨x, rest, hw, hr, fun _ => hstop (stops_nil w)⟩

/-- What only some kinds continue, only these and others continue. -/
theorem Takes.weaken (h : p.Takes more u) : p.Takes (kinds ++ more) u := by
  intro i w
  obtain ⟨x, rest, hw, hr, hstop⟩ := h i w
  exact ⟨x, rest, hw, hr, fun hs => hstop (stops_append.mp hs).2⟩

/-- One parser, then another that takes tokens which do not continue the first. -/
theorem Takes.bind {f : α → Parser β} (h : p.Takes kinds u) (hv : ∀ w, Stops kinds (v ++ w))
    (hf : ∀ a, (f a).Takes more v) : (p.bind f).Takes more (u ++ v) := by
  intro i w
  obtain ⟨x, mid, hmid, ⟨a, k, hr⟩, hstop⟩ := h i (v ++ w)
  rw [hstop (hv w), List.nil_append] at hmid
  subst hmid
  obtain ⟨y, rest, hw, ⟨b, j, hs⟩, hstop'⟩ := hf a k w
  refine ⟨y, rest, hw, ⟨b, j, result_bind.mpr ⟨a, k, v ++ w, ?_, hs⟩⟩, hstop'⟩
  rw [List.append_assoc, hr]

/-- One parser, then another that need not take anything. -/
theorem Takes.bind_nil {f : α → Parser β} (h : p.Takes kinds u)
    (hf : ∀ a, (f a).Takes (kinds ++ more) []) : (p.bind f).Takes (kinds ++ more) u := by
  intro i w
  obtain ⟨x, mid, rfl, ⟨a, k, hr⟩, hstop⟩ := h i w
  obtain ⟨y, rest, rfl, ⟨b, j, hs⟩, hstop'⟩ := hf a k mid
  refine ⟨x ++ y, rest, (List.append_assoc ..).symm, ⟨b, j, result_bind.mpr
    ⟨a, k, y ++ rest, hr, hs⟩⟩, fun hw => ?_⟩
  have hx := hstop (stops_append.mp hw).1
  subst hx
  exact hstop' hw

/-- A choice takes what the alternative takes that can begin there. -/
theorem Takes.choice {l : Lexeme} : ∀ {ps : List (TokenKind × Parser α)},
    (∀ x ∈ ps, x.2.OnlyOn x.1) → (ps.map (·.1)).Nodup → (l.kind, p) ∈ ps →
    p.Takes kinds (l :: u) → (choice (ps.map (·.2))).Takes kinds (l :: u)
  | (kind, q) :: ps, honly, hnodup, hmem, h => by
    rw [List.map_cons, List.nodup_cons] at hnodup
    rcases List.mem_cons.mp hmem with heq | hps
    · cases heq
      exact h.orElse
    · have hne : l.kind ≠ kind := by
        rintro hk
        exact hnodup.1 (List.mem_map.mpr ⟨_, hps, hk⟩)
      have later := Takes.choice (fun x hx => honly x (List.mem_cons_of_mem _ hx)) hnodup.2 hps h
      refine Takes.orElse_of_fails (fun i w => ?_) later
      exact honly _ List.mem_cons_self i _ (stops_cons (by simpa using hne) _)

/-- An optional parser takes nothing where it cannot begin. -/
theorem takes_optional_nil {R : List Lexeme → α → Prop} {kind : TokenKind} (hp : p.Sound R)
    (h : p.OnlyOn kind) : p.optional.Takes [kind] [] := by
  intro i w
  cases hr : (p i w).result with
  | none =>
    refine ⟨[], w, rfl, ⟨none, i, ?_⟩, fun _ => rfl⟩
    rw [optional, List.nil_append, result_orElse_of_none (fails_map hr)]
    rfl
  | some reply =>
    obtain ⟨a, j, rest⟩ := reply
    obtain ⟨x, hx, -, -⟩ := hp i w a j rest hr
    refine ⟨x, rest, hx, ⟨some a, j, ?_⟩, fun hw => ?_⟩
    · rw [optional, List.nil_append,
        result_orElse_of_leaves (result_map.mpr ⟨a, hr, rfl⟩)]
    · rw [h i w hw] at hr
      cases hr

end Taking

/-! ### Repetition -/

section Repetition

variable {p : Parser α} {R : List Lexeme → α → Prop} {kinds starts : List TokenKind}

/-- A repetition succeeds everywhere, and leaves the end of what it is given. -/
theorem exists_leaves_manyWithin (hp : p.Sound R) (bound : List Lexeme) (i : Nat)
    (ls : List Lexeme) : ∃ x rest, ls = x ++ rest ∧ (manyWithin p bound).Leaves i ls rest := by
  have hsome : ∃ as j rest, ((manyWithin p bound) i ls).result = some (as, j, rest) := by
    cases bound with
    | nil => exact ⟨[], i, ls, rfl⟩
    | cons b bound =>
      rw [manyWithin]
      cases hr : ((p.bind fun a => .map (a :: ·) (manyWithin p bound)) i ls).result with
      | none => exact ⟨[], i, ls, by rw [result_orElse_of_none hr]; rfl⟩
      | some reply => exact ⟨_, _, _, result_orElse_of_leaves hr⟩
  obtain ⟨as, j, rest, hr⟩ := hsome
  obtain ⟨x, hx, -, -⟩ := sound_manyWithin hp bound i ls as j rest hr
  exact ⟨x, rest, hx, as, j, hr⟩

/-- A repetition takes nothing where its parser cannot begin. -/
theorem takes_manyWithin_nil (hp : p.Sound R)
    (hstart : ∀ i w, Stops starts w → (p i w).result = none) (bound : List Lexeme) :
    (manyWithin p bound).Takes starts [] := by
  intro i w
  obtain ⟨x, rest, hw, as, j, hr⟩ := exists_leaves_manyWithin hp bound i w
  refine ⟨x, rest, hw, ⟨as, j, hr⟩, fun hstop => ?_⟩
  have hpure : ((manyWithin p bound) i w).result = some ([], i, w) := by
    cases bound with
    | nil => rfl
    | cons b bound =>
      rw [manyWithin, result_orElse_of_none (fails_bind (hstart i w hstop))]
      rfl
  rw [hpure] at hr
  cases hr
  simpa using hw

/-- **A repetition takes parts that its parser takes**, if no part begins with a kind that
continues the part before it, and the bound is not below the number of parts. -/
theorem takes_manyWithin (hp : p.Sound R)
    (hstart : ∀ i w, Stops starts w → (p i w).result = none) :
    ∀ {parts : List (List Lexeme)}, (∀ u ∈ parts, p.Takes kinds u) →
      (∀ u ∈ parts, ∃ l v, u = l :: v ∧ l.kind ∉ kinds) → ∀ bound : List Lexeme,
      parts.length ≤ bound.length → (manyWithin p bound).Takes (kinds ++ starts) parts.flatten
  | [], _, _, bound, _ => (takes_manyWithin_nil hp hstart bound).weaken
  | [u], htakes, _, _ :: bound, _ => by
    rw [List.flatten_singleton, manyWithin]
    exact Takes.orElse ((htakes u List.mem_cons_self).bind_nil fun a =>
      (takes_manyWithin_nil hp hstart bound).weaken.map)
  | u :: v :: parts, htakes, hbegin, _ :: bound, hbound => by
    have later := takes_manyWithin hp hstart
      (fun x hx => htakes x (List.mem_cons_of_mem u hx))
      (fun x hx => hbegin x (List.mem_cons_of_mem u hx)) bound (by simpa using hbound)
    rw [List.flatten_cons, manyWithin]
    refine Takes.orElse ((htakes u List.mem_cons_self).bind (fun w => ?_) fun a => later.map)
    obtain ⟨l, v', rfl, hl⟩ := hbegin v (by simp)
    exact stops_cons hl _

theorem length_le_length_flatten {parts : List (List Lexeme)} (h : ∀ u ∈ parts, u ≠ []) :
    parts.length ≤ parts.flatten.length := by
  induction parts with
  | nil => exact Nat.le_refl 0
  | cons u parts ih =>
    have hu : 0 < u.length := List.length_pos_iff.mpr (h u List.mem_cons_self)
    have := ih fun v hv => h v (List.mem_cons_of_mem u hv)
    rw [List.flatten_cons, List.length_append, List.length_cons]
    omega

/-- The tokens themselves bound a repetition. -/
theorem Takes.many (hp : p.Sound R) (hstart : ∀ i w, Stops starts w → (p i w).result = none)
    {parts : List (List Lexeme)} (htakes : ∀ u ∈ parts, p.Takes kinds u)
    (hbegin : ∀ u ∈ parts, ∃ l v, u = l :: v ∧ l.kind ∉ kinds) :
    p.many.Takes (kinds ++ starts) parts.flatten := by
  intro i w
  have hlength : parts.length ≤ parts.flatten.length := length_le_length_flatten fun u hu => by
    obtain ⟨l, v, rfl, -⟩ := hbegin u hu
    exact List.cons_ne_nil l v
  refine takes_manyWithin hp hstart htakes hbegin _ ?_ i w
  rw [List.length_append]
  omega

end Repetition
end Parser
end OpenScad
