/-
# How far a parser looks

The furthest place at which a test of a parser failed, also in an attempt that
was given up, comes behind tokens that begin some word of the language
(`Parser.Viable`): no parser of the grammar goes on behind tokens that cannot
be continued.

A parser is viable for a language if it is made of viable parsers and every
front of a word of a part can be completed to a word of the whole. So every
language here must have some word; that it has is all that is asked of it.

Key definitions: `Begins`, `Parser.Viable`.
Key theorems: `Parser.Viable.bind`, `Parser.Viable.many`, `program_viable`.
-/
import OpenScad.Proofs.Grammar.Longest

namespace OpenScad

/-- The tokens are the front of a word of the language. -/
def Begins (L : List Lexeme → Prop) (u : List Lexeme) : Prop := ∃ more, L (u ++ more)

theorem Begins.mono {L M : List Lexeme → Prop} {u : List Lexeme} (h : Begins L u)
    (hLM : ∀ w, L w → M w) : Begins M u := by
  obtain ⟨more, hmore⟩ := h
  exact ⟨more, hLM _ hmore⟩

theorem begins_nil {L : List Lexeme → Prop} (h : ∃ w, L w) : Begins L [] := h

/-- The words of one language with words of another behind them. -/
def Concat (L M : List Lexeme → Prop) (w : List Lexeme) : Prop :=
  ∃ u v, L u ∧ M v ∧ w = u ++ v

/-- The words of a language any number of times, one behind the other. -/
def Repeats (L : List Lexeme → Prop) (w : List Lexeme) : Prop :=
  ∃ parts : List (List Lexeme), (∀ u ∈ parts, L u) ∧ w = parts.flatten

theorem exists_concat {L M : List Lexeme → Prop} (hL : ∃ w, L w) (hM : ∃ w, M w) :
    ∃ w, Concat L M w := by
  obtain ⟨u, hu⟩ := hL
  obtain ⟨v, hv⟩ := hM
  exact ⟨u ++ v, u, v, hu, hv, rfl⟩

theorem repeats_nil (L : List Lexeme → Prop) : Repeats L [] := ⟨[], by simp, rfl⟩

theorem Repeats.cons {L : List Lexeme → Prop} {w : List Lexeme} (h : Concat L (Repeats L) w) :
    Repeats L w := by
  obtain ⟨u, _, hu, ⟨parts, hparts, rfl⟩, rfl⟩ := h
  refine ⟨u :: parts, fun v hv => ?_, rfl⟩
  rcases List.mem_cons.mp hv with rfl | hv
  · exact hu
  · exact hparts v hv

namespace Parser

variable {α β : Type} {p : Parser α} {L M : List Lexeme → Prop}

/-- Whatever the tokens, those before the furthest failing test are the front of a word of the
language. -/
def Viable (p : Parser α) (L : List Lexeme → Prop) : Prop :=
  ∀ i ls, ∃ k, (p i ls).furthest = i + k ∧ k ≤ ls.length ∧ Begins L (ls.take k)

/-! ### Parsers that test one token at most -/

/-- A test that fails where the parser begins is behind no token. -/
theorem viable_of_furthest (hL : ∃ w, L w) (h : ∀ i ls, (p i ls).furthest = i) : p.Viable L :=
  fun i ls => ⟨0, h i ls, Nat.zero_le _, begins_nil hL⟩

theorem viable_fail (hL : ∃ w, L w) : (fail : Parser α).Viable L :=
  viable_of_furthest hL fun _ _ => rfl

theorem viable_pure {a : α} (hL : ∃ w, L w) : (pure a).Viable L :=
  viable_of_furthest hL fun _ _ => rfl

theorem viable_atEnd (hL : ∃ w, L w) : atEnd.Viable L := by
  refine viable_of_furthest hL fun i ls => ?_
  cases ls <;> rfl

theorem viable_accept {f : Lexeme → Option α} (hL : ∃ w, L w) : (accept f).Viable L := by
  refine viable_of_furthest hL fun i ls => ?_
  cases ls with
  | nil => rfl
  | cons l ls =>
    unfold accept
    simp only
    split <;> rfl

/-! ### Parsers put together -/

theorem Viable.mono (h : p.Viable L) (hLM : ∀ w, L w → M w) : p.Viable M := by
  intro i ls
  obtain ⟨k, hk, hle, hbegins⟩ := h i ls
  exact ⟨k, hk, hle, hbegins.mono hLM⟩

theorem Viable.map {f : α → β} (h : p.Viable L) : (p.map f).Viable L := h

/-- Of two places behind viable tokens the further one is behind viable tokens. -/
theorem exists_max {i a b : Nat} {ls : List Lexeme}
    (ha : ∃ k, a = i + k ∧ k ≤ ls.length ∧ Begins L (ls.take k))
    (hb : ∃ k, b = i + k ∧ k ≤ ls.length ∧ Begins L (ls.take k)) :
    ∃ k, max a b = i + k ∧ k ≤ ls.length ∧ Begins L (ls.take k) := by
  rcases Nat.le_total a b with h | h
  · rwa [Nat.max_eq_right h]
  · rwa [Nat.max_eq_left h]

theorem Viable.orElse {q : Parser α} (hp : p.Viable L) (hq : q.Viable L) :
    (p.orElse q).Viable L := by
  intro i ls
  unfold Parser.orElse
  simp only
  split
  · exact hp i ls
  · exact exists_max (hp i ls) (hq i ls)

theorem viable_choice (hL : ∃ w, L w) : ∀ ps : List (Parser α), (∀ p ∈ ps, p.Viable L) →
    (choice ps).Viable L
  | [], _ => viable_fail hL
  | p :: ps, h => (h p List.mem_cons_self).orElse
      (viable_choice hL ps fun q hq => h q (List.mem_cons_of_mem p hq))

theorem Viable.optional (h : p.Viable L) (hL : ∃ w, L w) : p.optional.Viable L :=
  h.map.orElse (viable_pure hL)

/-- One parser, then another. What begins a word of the first language begins one of both. -/
theorem Viable.bind {f : α → Parser β} (h : p.Viable L) (hp : p.Sound fun u _ => L u)
    (hf : ∀ a, (f a).Viable M) (hM : ∃ v, M v) : (p.bind f).Viable (Concat L M) := by
  intro i ls
  have first : ∃ k, (p i ls).furthest = i + k ∧ k ≤ ls.length ∧
      Begins (Concat L M) (ls.take k) := by
    obtain ⟨k, hk, hle, more, hmore⟩ := h i ls
    obtain ⟨v, hv⟩ := hM
    exact ⟨k, hk, hle, more ++ v, _, v, hmore, hv, (List.append_assoc ..).symm⟩
  unfold Parser.bind
  simp only
  split
  · exact first
  · rename_i a j rest hr
    refine exists_max first ?_
    obtain ⟨u, rfl, rfl, hu⟩ := hp i ls a j rest hr
    obtain ⟨k, hk, hle, more, hmore⟩ := hf a (i + u.length) rest
    refine ⟨u.length + k, by rw [hk, Nat.add_assoc], ?_, more, u, _, hu, hmore, ?_⟩
    · rw [List.length_append]
      omega
    · rw [List.take_length_add_append, List.append_assoc]

theorem Viable.many (h : p.Viable L) (hp : p.Sound fun u _ => L u) : p.many.Viable (Repeats L) := by
  have within : ∀ bound : List Lexeme, (manyWithin p bound).Viable (Repeats L) := by
    intro bound
    induction bound with
    | nil => exact viable_pure ⟨[], repeats_nil L⟩
    | cons b bound ih =>
      have longer := h.bind hp (fun a => ih.map (f := (a :: ·))) ⟨[], repeats_nil L⟩
      exact (longer.mono fun w => Repeats.cons).orElse (viable_pure ⟨[], repeats_nil L⟩)
  exact fun i ls => within ls i ls

end Parser

/-! ### The parsers of the grammar -/

namespace Grammar

/-- A token of a kind. -/
def anyOf (kind : TokenKind) : Lexeme :=
  { kind, token := { value := "", line := 1, column := 1, offset := 0 } }

theorem exists_phrase_level : ∀ k : Nat, ∃ u, Phrase (.level k) u
  | 0 => ⟨[anyOf .number], @Phrase.unary [] _ (by simp) (.literal (by decide))⟩
  | k + 1 => (exists_phrase_level k).imp fun _ h => h.looser

theorem exists_phrase : ∀ n : Nonterminal, ∃ u, Phrase n u
  | .primary => ⟨[anyOf .number], .literal (by decide)⟩
  | .level k => exists_phrase_level k
  | .statement => ⟨[anyOf .lineComment], .comment (by decide)⟩

/-- The lists of one token that has one of the kinds. -/
def OfKinds (kinds : List TokenKind) (u : List Lexeme) : Prop := ∃ l, u = [l] ∧ l.kind ∈ kinds

section Tokens

variable (kind : TokenKind) (r : Rule)

theorem exists_ofKinds : ∃ u, OfKinds [kind] u := ⟨[anyOf kind], _, rfl, List.mem_cons_self⟩

theorem token_viable : (token kind).Viable (OfKinds [kind]) :=
  Parser.viable_accept (exists_ofKinds kind)

theorem token_ofKinds : (token kind).Sound fun u _ => OfKinds [kind] u :=
  (token_sound kind).mono fun _ _ ⟨l, hu, hl, _⟩ => ⟨l, hu, by simp [hl]⟩

theorem terminal_ofKinds : (terminal kind r).Sound fun u _ => OfKinds [kind] u :=
  (terminal_sound kind r).mono fun _ _ ⟨l, hu, hl, _⟩ => ⟨l, hu, by simp [hl]⟩

theorem operator_ofKinds (kinds : List TokenKind) :
    (operator kinds).Sound fun u _ => OfKinds kinds u :=
  (operator_sound kinds).mono fun _ _ ⟨l, hu, hl, _⟩ => ⟨l, hu, hl⟩

theorem operator_viable {kinds : List TokenKind} (h : kinds ≠ []) :
    (operator kinds).Viable (OfKinds kinds) := by
  obtain ⟨kind, more, rfl⟩ := List.exists_cons_of_ne_nil h
  exact Parser.viable_accept ⟨[anyOf kind], _, rfl, List.mem_cons_self⟩

end Tokens

/-! ### Expressions -/

theorem operators_ne_nil : ∀ k < 6, operators k ≠ [] := by decide

theorem phrase_of_operands {k : Nat} {w : List Lexeme}
    (h : Concat (Phrase (.level k))
      (Repeats (Concat (OfKinds (operators k)) (Phrase (.level k)))) w) :
    Phrase (.level (k + 1)) w := by
  obtain ⟨u, _, hu, ⟨parts, hparts, rfl⟩, rfl⟩ := h
  have longer : ∀ {parts : List (List Lexeme)},
      (∀ v ∈ parts, Concat (OfKinds (operators k)) (Phrase (.level k)) v) →
      ∀ {u}, Phrase (.level (k + 1)) u → Phrase (.level (k + 1)) (u ++ parts.flatten) := by
    intro parts
    induction parts with
    | nil => simp
    | cons v parts ih =>
      intro hparts u hu
      obtain ⟨_, v', ⟨o, rfl, ho⟩, hv, rfl⟩ := hparts v List.mem_cons_self
      have := ih (fun w hw => hparts w (List.mem_cons_of_mem _ hw)) (hu.append_operand ho hv)
      simpa using this
  exact longer hparts hu.looser

theorem binaryLevel_viable {operand : Parser Match} {k : Nat} (hk : k < 6)
    (h : operand.Viable (Phrase (.level k))) (hsound : operand.Sound (Parses (.level k))) :
    (binaryLevel operand (operators k)).Viable (Phrase (.level (k + 1))) := by
  have phrases : operand.Sound fun u _ => Phrase (.level k) u :=
    hsound.mono fun u m => Parses.phrase
  have tail : (Parser.bind (operator (operators k)) fun op =>
      .map (fun right => (op, right)) operand).Viable
      (Concat (OfKinds (operators k)) (Phrase (.level k))) :=
    (operator_viable (operators_ne_nil k hk)).bind (operator_ofKinds _) (fun op => h.map)
      (exists_phrase_level k)
  have tail_phrases := (tail_sound hsound).mono (Q := fun u _ =>
      Concat (OfKinds (operators k)) (Phrase (.level k)) u) fun u t ⟨o, v, hu, ho, _, hv⟩ =>
    ⟨[o], v, ⟨o, rfl, ho⟩, hv.phrase, hu⟩
  exact (h.bind phrases (fun first => (tail.many tail_phrases).map) ⟨[], repeats_nil _⟩).mono
    fun w => phrase_of_operands

theorem levelOver_viable {operand : Parser Match} (h : operand.Viable (Phrase (.level 0)))
    (hsound : operand.Sound (Parses (.level 0))) :
    ∀ k ≤ 6, (levelOver operand k).Viable (Phrase (.level k))
  | 0, _ => h
  | k + 1, hk => binaryLevel_viable hk (levelOver_viable h hsound k (Nat.le_of_succ_le hk))
      (levelOver_sound hsound k)

theorem terminal_viable {kind : TokenKind} {r : Rule} {n : Nonterminal}
    (h : ∀ l : Lexeme, l.kind = kind → Phrase n [l]) : (terminal kind r).Viable (Phrase n) := by
  refine (token_viable kind).map.mono ?_
  rintro _ ⟨l, rfl, hl⟩
  exact h l (by simpa using hl)

theorem parenthesized_viable {e : Parser Match} (h : e.Viable (Phrase .expression))
    (hsound : e.Sound (Parses .expression)) : (parenthesized e).Viable (Phrase .primary) := by
  have phrases : e.Sound fun u _ => Phrase .expression u := hsound.mono fun u m => Parses.phrase
  refine ((token_viable .openParen).bind (token_ofKinds _)
    (fun opening => h.bind phrases (fun inner => (token_viable .closeParen).map)
      (exists_ofKinds _))
    (exists_concat (exists_phrase _) (exists_ofKinds _))).mono ?_
  rintro _ ⟨_, _, ⟨o, rfl, ho⟩, ⟨u, _, hu, ⟨c, rfl, hc⟩, rfl⟩, rfl⟩
  exact .parentheses (by simpa using ho) hu (by simpa using hc)

theorem primary_viable {e : Parser Match} (h : e.Viable (Phrase .expression))
    (hsound : e.Sound (Parses .expression)) : (primary e).Viable (Phrase .primary) := by
  have literal {kind : TokenKind} {r : Rule} (hk : kind ∈ literals) :
      (terminal kind r).Viable (Phrase .primary) :=
    terminal_viable fun l hl => .literal (hl ▸ hk)
  refine (Parser.viable_choice (exists_phrase _) _ fun p hp => ?_).map
  simp only [List.mem_cons, List.not_mem_nil, or_false] at hp
  rcases hp with rfl | rfl | rfl | rfl | rfl | rfl | rfl
  · exact literal (by decide)
  · exact literal (by decide)
  · exact literal (by decide)
  · exact literal (by decide)
  · exact literal (by decide)
  · exact literal (by decide)
  · exact parenthesized_viable h hsound

theorem Phrase.sign {o : Lexeme} {u : List Lexeme} (ho : o.kind ∈ prefixes)
    (h : Phrase (.level 0) u) : Phrase (.level 0) (o :: u) := by
  cases h with
  | @unary os v signs operand =>
    refine @Phrase.unary (o :: os) _ (fun x hx => ?_) operand
    rcases List.mem_cons.mp hx with rfl | hx
    · exact ho
    · exact signs x hx

theorem unary_viable {p : Parser Match} (h : p.Viable (Phrase .primary)) :
    (unary p).Viable (Phrase (.level 0)) := by
  have operand : (p.map fun operand => Match.rule .operation [operand]).Viable
      (Phrase (.level 0)) := h.map.mono fun w hw => @Phrase.unary [] _ (by simp) hw
  have within : ∀ bound : List Lexeme, (unaryWithin p bound).Viable (Phrase (.level 0)) := by
    intro bound
    induction bound with
    | nil => exact operand
    | cons b bound ih =>
      refine Parser.Viable.orElse
        (Parser.Viable.mono (L := Concat (OfKinds prefixes) (Phrase (.level 0))) ?_ ?_) operand
      · exact (operator_viable (by decide)).bind (operator_ofKinds _) (fun op => ih.map)
          (exists_phrase_level 0)
      · rintro _ ⟨_, u, ⟨o, rfl, ho⟩, hu, rfl⟩
        exact hu.sign ho
  exact fun i ls => within ls i ls

theorem expressionWithin_viable :
    ∀ bound : List Lexeme, (expressionWithin bound).Viable (Phrase .expression)
  | [] => Parser.viable_fail (exists_phrase _)
  | b :: bound => by
    have sound := primary_sound (expressionWithin_sound bound)
    have viable := primary_viable (expressionWithin_viable bound) (expressionWithin_sound bound)
    rw [expressionWithin_cons]
    exact levelOver_viable (unary_viable viable) (unary_sound sound) 6 (Nat.le_refl 6)

theorem expression_viable : expression.Viable (Phrase .expression) :=
  fun i ls => expressionWithin_viable ls i ls

/-! ### Statements -/

theorem assignment_viable : assignment.Viable (Phrase .statement) := by
  have phrases : expression.Sound fun u _ => Phrase .expression u :=
    expression_sound.mono fun u m => Parses.phrase
  have name : (terminal .identifier .identifier).Viable (OfKinds [.identifier]) :=
    (token_viable .identifier).map
  have behind_equals := exists_concat (exists_phrase .expression) (exists_ofKinds .semicolon)
  have behind_name := exists_concat (exists_ofKinds .assign) behind_equals
  refine (name.bind (terminal_ofKinds _ _) (fun name =>
    (token_viable .assign).bind (token_ofKinds _) (fun equals =>
      expression_viable.bind phrases (fun value => (token_viable .semicolon).map)
        (exists_ofKinds _)) behind_equals) behind_name).mono ?_
  rintro _ ⟨_, _, ⟨n, rfl, hn⟩, ⟨_, _, ⟨e, rfl, he⟩, ⟨u, _, hu, ⟨s, rfl, hs⟩, rfl⟩, rfl⟩, rfl⟩
  exact .assignment (by simpa using hn) (by simpa using he) hu (by simpa using hs)

theorem pathStatement_viable {keyword : TokenKind} {r : Rule}
    (hk : keyword ∈ [.useWord, .includeWord]) :
    (pathStatement keyword r).Viable (Phrase .statement) := by
  have file : (terminal .path .path).Viable (OfKinds [.path]) := (token_viable .path).map
  refine ((token_viable keyword).bind (token_ofKinds _) (fun word =>
    file.bind (terminal_ofKinds _ _)
      (fun file => ((token_viable .semicolon).optional (exists_ofKinds _)).map)
      (exists_ofKinds _))
    (exists_concat (exists_ofKinds _) (exists_ofKinds _))).mono ?_
  rintro _ ⟨_, _, ⟨w, rfl, hw⟩, ⟨_, _, ⟨f, rfl, hf⟩, ⟨s, rfl, hs⟩, rfl⟩, rfl⟩
  have hword : w.kind = keyword := by simpa using hw
  exact @Phrase.path w f (some s) (hword ▸ hk) (by simpa using hf) (by simpa using hs)

theorem block_viable {statement : Parser Match} (h : statement.Viable (Phrase .statement))
    (hsound : statement.Sound (Parses .statement)) :
    (block statement).Viable (Phrase .statement) := by
  have phrases : statement.Sound fun u _ => Phrase .statement u :=
    hsound.mono fun u m => Parses.phrase
  have many : statement.many.Sound fun u _ => Repeats (Phrase .statement) u :=
    hsound.many.mono fun u ms ⟨parts, hparts, hu, _⟩ =>
      ⟨parts.map (·.1), List.forall_mem_map.mpr fun x hx => (hparts x hx).phrase, hu⟩
  refine ((token_viable .openBrace).bind (token_ofKinds _) (fun opening =>
    (h.many phrases).bind many (fun statements => (token_viable .closeBrace).map)
      (exists_ofKinds _))
    (exists_concat ⟨[], repeats_nil _⟩ (exists_ofKinds _))).mono ?_
  rintro _ ⟨_, _, ⟨o, rfl, ho⟩, ⟨_, _, ⟨parts, hparts, rfl⟩, ⟨c, rfl, hc⟩, rfl⟩, rfl⟩
  exact .block (by simpa using ho) hparts (by simpa using hc)

theorem statementWithin_viable :
    ∀ bound : List Lexeme, (statementWithin bound).Viable (Phrase .statement)
  | [] => Parser.viable_fail (exists_phrase _)
  | b :: bound => by
    have comment {kind : TokenKind} {r : Rule} (hk : kind ∈ [.lineComment, .blockComment]) :
        (terminal kind r).Viable (Phrase .statement) :=
      terminal_viable fun l hl => .comment (hl ▸ hk)
    refine (Parser.viable_choice (exists_phrase _) _ fun p hp => ?_).map
    simp only [List.mem_cons, List.not_mem_nil, or_false] at hp
    rcases hp with rfl | rfl | rfl | rfl | rfl | rfl
    · exact pathStatement_viable (by decide)
    · exact pathStatement_viable (by decide)
    · exact assignment_viable
    · exact block_viable (statementWithin_viable bound) (statementWithin_sound bound)
    · exact comment (by decide)
    · exact comment (by decide)

theorem statement_viable : statement.Viable (Phrase .statement) :=
  fun i ls => statementWithin_viable ls i ls

/-- Before the furthest test of the program parser stand the front tokens of a program. -/
theorem program_viable : program.Viable (Repeats (Phrase .statement)) := by
  have phrases : statement.Sound fun u _ => Phrase .statement u :=
    statement_sound.mono fun u m => Parses.phrase
  have many : statement.many.Sound fun u _ => Repeats (Phrase .statement) u :=
    statement_sound.many.mono fun u ms ⟨parts, hparts, hu, _⟩ =>
      ⟨parts.map (·.1), List.forall_mem_map.mpr fun x hx => (hparts x hx).phrase, hu⟩
  have atEnd : Parser.atEnd.Viable (· = []) := Parser.viable_atEnd ⟨[], rfl⟩
  refine ((statement_viable.many phrases).bind many (fun statements => atEnd.map)
    ⟨[], rfl⟩).mono ?_
  rintro _ ⟨u, _, hu, rfl, rfl⟩
  rwa [List.append_nil]

end Grammar
end OpenScad
