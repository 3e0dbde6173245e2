import Script.Proofs.Grammar.Opening
import Script.Proofs.Grammar.Soundness

/-!
# What is in the grammar is accepted by the parser

Every derivation is found: in front of tokens that derive a tree, the parser moves past exactly
these tokens and yields that tree.  With soundness this says that the parser decides the grammar,
and that no tokens have two derivations in front of the same token.

`Leads p ts next q` says what the parser `p` does in front of the tokens `ts`: it moves past them
and goes on as `q`.  A loop is met in the middle this way: the part that has been read leads to the
rest of the loop.  The bounds on loops and nesting are met because every round and every level of
nesting passes a token.

## Main definitions

* `Leads`, `Accepts`: what a parser does in front of given tokens.
* `Phrase.Accepted`: what the parsers do in front of the tokens of a phrase.
-/

namespace Script.Grammar

open Script.Parser Outcome TokenStream

variable {α β : Type} {ts us : List Token} {t next : Token} {d : Nat}

/-- In front of the tokens `ts` and then `next`, the parser `p` moves past `ts` and goes on as
`q`. -/
def Leads (p : Parser α) (ts : List Token) (next : Token) (q : Parser α) : Prop :=
  ∀ ⦃s s' : TokenStream⦄, s.Passes ts s' → s'.here = next → p s = q s'

/-- In front of the tokens `ts` and then `next`, the parser `p` moves past `ts` and yields `a`. -/
def Accepts (p : Parser α) (ts : List Token) (next : Token) (a : α) : Prop :=
  Leads p ts next (pure a)

/-! ### Sequences of steps -/

section Steps

variable {p q : Parser α} {f : α → Parser β} {g : Parser β} {a : α} {b : β}

theorem Leads.refl (p : Parser α) (next : Token) : Leads p [] next p := by
  intro s s' hpass _
  rw [hpass.eq_of_nil]

theorem Leads.bind (hp : Accepts p ts (us.headD next) a) (hf : Leads (f a) us next g) :
    Leads (p >>= f) (ts ++ us) next g := by
  intro s s' hpass hnext
  obtain ⟨s₁, hpass₁, hpass₂⟩ := hpass.split
  have hfirst : p s = .ok a s₁ := hp hpass₁ (by rw [hpass₂.here_eq_headD, hnext])
  rw [bind_of_ok hfirst]
  exact hf hpass₂ hnext

/-- A first step that moves past all tokens. -/
theorem Leads.bind_all (hp : Accepts p ts next a) (hf : Leads (f a) [] next g) :
    Leads (p >>= f) ts next g := by
  intro s s' hpass hnext
  have hfirst : p s = .ok a s' := hp hpass hnext
  rw [bind_of_ok hfirst]
  exact hf (.refl s') hnext

/-- A first step that moves past one token. -/
theorem Leads.bind_one (hp : Accepts p [t] (us.headD next) a) (hf : Leads (f a) us next g) :
    Leads (p >>= f) (t :: us) next g :=
  Leads.bind hp hf

/-- A first step that only looks. -/
theorem Leads.bind_none (hp : Accepts p [] (us.headD next) a) (hf : Leads (f a) us next g) :
    Leads (p >>= f) us next g :=
  Leads.bind hp hf

/-- A first step that leads to the middle of a loop. -/
theorem Leads.trans (hp : Leads p ts (us.headD next) q) {r : Parser α} (hq : Leads q us next r) :
    Leads p (ts ++ us) next r := by
  intro s s' hpass hnext
  obtain ⟨s₁, hpass₁, hpass₂⟩ := hpass.split
  rw [hp hpass₁ (by rw [hpass₂.here_eq_headD, hnext])]
  exact hq hpass₂ hnext

theorem Leads.trans_nil (hp : Leads p ts next q) {r : Parser α} (hq : Leads q [] next r) :
    Leads p ts next r := by
  intro s s' hpass hnext
  rw [hp hpass hnext]
  exact hq (.refl s') hnext

theorem Leads.peek {f : Token → Parser β} (hf : Leads (f (ts.headD next)) ts next g) :
    Leads (peek >>= f) ts next g := by
  intro s s' hpass hnext
  rw [peek_bind, hpass.here_eq_headD, hnext]
  exact hf hpass hnext

theorem accepts_pure (a : α) (next : Token) : Accepts (pure a) [] next a := .refl _ _

end Steps

/-! ### Single tokens -/

section Tokens

variable {p q : Parser α} {g : Parser α} {l : Lexeme}

theorem accepts_advance (ht : t.lexeme = l) (hl : l ≠ .endOfInput) (next : Token) :
    Accepts advance [t] next t := by
  intro s s' hpass _
  have hstep : s.advance = s' := (hpass.advance (Token.not_isEnd_of_lexeme ht hl)).eq_of_nil
  rw [← hstep, ← hpass.here_eq]
  rfl

theorem accepts_expect {mark : Symbol} {cause : ParseError.Cause} (ht : t.lexeme = .symbol mark)
    (next : Token) : Accepts (expect mark cause) [t] next t := by
  intro s s' hpass _
  have hstep := (hpass.advance (Token.not_isEnd_of_lexeme ht (by simp))).eq_of_nil
  exact expect_eq_ok_iff.mpr ⟨hpass.here_eq ▸ ht, hpass.here_eq, hstep⟩

theorem accepts_expectKeyword {word : Keyword} (ht : t.lexeme = .keyword word) (next : Token) :
    Accepts (expectKeyword word) [t] next t := by
  intro s s' hpass _
  have hstep := (hpass.advance (Token.not_isEnd_of_lexeme ht (by simp))).eq_of_nil
  exact expectKeyword_eq_ok_iff.mpr ⟨hpass.here_eq ▸ ht, hpass.here_eq, hstep⟩

theorem accepts_identifier {cause : ParseError.Cause} {name : String}
    (ht : t.lexeme = .identifier name) (next : Token) :
    Accepts (identifier cause) [t] next (name, t.span) := by
  intro s s' hpass _
  have hstep := (hpass.advance (Token.not_isEnd_of_lexeme ht (by simp))).eq_of_nil
  exact identifier_eq_ok_iff.mpr ⟨hpass.here_eq ▸ ht, by rw [hpass.here_eq], hstep⟩

theorem accepts_accept {mark : Symbol} (ht : t.lexeme = .symbol mark) (next : Token) :
    Accepts (accept mark) [t] next true := by
  intro s s' hpass _
  have hstep := (hpass.advance (Token.not_isEnd_of_lexeme ht (by simp))).eq_of_nil
  rw [accept_apply, if_pos (hpass.here_eq ▸ ht), hstep]
  rfl

theorem accepts_accept_other {mark : Symbol} (ht : next.lexeme ≠ .symbol mark) :
    Accepts (accept mark) [] next false := by
  intro s s' hpass hnext
  rw [hpass.eq_of_nil, accept_apply, if_neg (by rwa [hnext])]
  rfl

theorem accepts_acceptKeyword {word : Keyword} (ht : t.lexeme = .keyword word) (next : Token) :
    Accepts (acceptKeyword word) [t] next true := by
  intro s s' hpass _
  have hstep := (hpass.advance (Token.not_isEnd_of_lexeme ht (by simp))).eq_of_nil
  rw [acceptKeyword_apply, if_pos (hpass.here_eq ▸ ht), hstep]
  rfl

theorem accepts_acceptKeyword_other {word : Keyword} (ht : next.lexeme ≠ .keyword word) :
    Accepts (acceptKeyword word) [] next false := by
  intro s s' hpass hnext
  rw [hpass.eq_of_nil, acceptKeyword_apply, if_neg (by rwa [hnext])]
  rfl

end Tokens

/-! ### Phrases -/

/-- The parser for operations of at least the given level, `operation` itself being level 0. -/
def operationAt (rounds : Nat) (operand : Parser (Expr Span)) (level : Nat) : Parser (Expr Span) :=
  (binaryLevels.drop level).foldr (binaryLevel rounds) (unary operand rounds)

/-- The parser for what is applied, at a depth. -/
def appliedAt (d : Nat) : Parser (Expr Span) :=
  applied d (expression d) (block d (statement d))

/-- What the parsers do in front of the tokens of a phrase, within a bound that is a little larger
than the number of these tokens. -/
def Phrase.Accepted : Phrase → List Token → Token → Prop
  | expression e, ts, next => ∀ d, ts.length < d → Accepts (Parser.expression d) ts next e
  | operation level e, ts, next => ∀ d, ts.length ≤ d →
      (∀ table, binaryLevels[level]? = some table → ∃ r, d < r + ts.length ∧
        Leads (operationAt d (appliedAt d) level) ts next
          (binaryRest table (operationAt d (appliedAt d) (level + 1)) r e)) ∧
      (level = unaryLevel → ∀ rounds, ts.length ≤ rounds →
        Accepts (unary (appliedAt d) rounds) ts next e)
  | applied e, ts, next => ∀ d, ts.length ≤ d → ∃ r, d < r + ts.length ∧
      Leads (appliedAt d) ts next (postfixRest (Parser.expression d) r e)
  | primary e, ts, next => ∀ d, ts.length ≤ d →
      Accepts (Parser.primary d (Parser.expression d) (Parser.block d (Parser.statement d))) ts next
        e
  | items close es, ts, next => Lexeme.beginsExpression (.symbol close) = false →
      ∀ d rounds, ts.length < d → ts.length < rounds →
        Accepts (Parser.items close (Parser.expression d) rounds) ts next es
  | entries es, ts, next => ∀ d rounds, ts.length < d → ts.length < rounds →
      Accepts (Parser.items .rightBrace (mapEntry (Parser.expression d)) rounds) ts next es
  | params names, ts, next => ∀ rounds, ts.length < rounds →
      Accepts (parameters rounds) ts next names ∧
        (names ≠ [] → Accepts (parameterNames rounds) ts next names)
  | code names body, ts, next => ∀ d, ts.length ≤ d →
      Accepts (functionRest d (Parser.block d (Parser.statement d))) ts next (names, body)
  | statements body, ts, next => ∀ d rounds, ts.length + 1 < d → ts.length < rounds →
      Accepts (Parser.statements (Parser.statement d) rounds) ts next body
  | block body, ts, next => ∀ d, ts.length ≤ d →
      Accepts (Parser.block d (Parser.statement d)) ts next body
  | branch body, ts, next => ∀ d, ts.length + 1 < d →
      Accepts (Parser.branch d (Parser.statement d)) ts next body
  | form build, ts, next => ∀ d, ts.length < d →
      Accepts (statementForm d (Parser.expression d) (Parser.statement d)) ts next build
  | statement s, ts, next => ∀ d, ts.length + 1 < d → Accepts (Parser.statement d) ts next s

/-! ### Operations -/

section Operations

variable {e left right : Expr Span} {level : Nat} {operand : Parser (Expr Span)}

theorem operationAt_of_table {table : List (Symbol × BinaryOp)} (rounds : Nat)
    (htable : binaryLevels[level]? = some table) :
    operationAt rounds operand level =
      binaryLevel rounds table (operationAt rounds operand (level + 1)) := by
  obtain ⟨hlt, rfl⟩ := List.getElem?_eq_some_iff.mp htable
  rw [operationAt, List.drop_eq_getElem_cons hlt, List.foldr_cons, operationAt]

theorem exists_table (h : level < unaryLevel) : ∃ table, binaryLevels[level]? = some table :=
  ⟨_, List.getElem?_eq_getElem h⟩

/-- The loop over the operators of a level ends in front of a token that is none of them. -/
theorem leads_binaryRest_stop {table : List (Symbol × BinaryOp)} {rounds : Nat}
    (htable : binaryLevels[level]? = some table) (hstop : NoOperator level next)
    (hrounds : 0 < rounds) : Accepts (binaryRest table operand rounds e) [] next e := by
  obtain ⟨r, rfl⟩ : ∃ r, rounds = r + 1 := ⟨rounds - 1, by omega⟩
  rw [binaryRest]
  refine Leads.peek ?_
  rw [List.headD_nil, (operator?_eq_none_iff htable).mpr hstop]
  exact accepts_pure e next

/-- One round of the loop over the operators of a level. -/
theorem leads_binaryRest_step {op : BinaryOp} {table : List (Symbol × BinaryOp)} {mark : Token}
    {rounds : Nat} (htable : binaryLevels[op.level]? = some table)
    (hmark : mark.lexeme = .symbol op.mark) (hright : Accepts operand ts next right) :
    Leads (binaryRest table operand (rounds + 1) left) (mark :: ts) next
      (binaryRest table operand rounds (.binary (left.ann.join right.ann) op left right)) := by
  rw [binaryRest]
  refine Leads.peek ?_
  rw [List.headD_cons, (operator?_eq_some_iff htable).mpr ⟨rfl, hmark⟩]
  exact Leads.bind_one (accepts_advance hmark (by simp) _) (Leads.bind_all hright (.refl _ _))

/-- An operation that is not followed by an operator of its level is read as a whole. -/
theorem accepts_operationAt (h : (Phrase.operation level e).Accepted ts next)
    (hlevel : level ≤ unaryLevel) (hstop : NoOperator level next) (hd : ts.length ≤ d) :
    Accepts (operationAt d (appliedAt d) level) ts next e := by
  obtain ⟨hloop, hunary⟩ := h d hd
  rcases Nat.lt_or_eq_of_le hlevel with hlt | rfl
  · obtain ⟨table, htable⟩ := exists_table hlt
    obtain ⟨r, hr, hlead⟩ := hloop table htable
    exact hlead.trans_nil (leads_binaryRest_stop htable hstop (by omega))
  · exact hunary rfl d hd

theorem accepted_tighter (hlevel : level < unaryLevel) (hne : ts ≠ [])
    (h : (Phrase.operation (level + 1) e).Accepted ts next) (hstop : NoOperator (level + 1) next) :
    (Phrase.operation level e).Accepted ts next := by
  intro d hd
  refine ⟨?_, fun hunary => absurd hunary (Nat.ne_of_lt hlevel)⟩
  intro table htable
  have hlength := List.length_pos_iff.mpr hne
  refine ⟨d, by omega, ?_⟩
  rw [operationAt_of_table d htable]
  exact Leads.bind_all (accepts_operationAt h hlevel hstop hd) (.refl _ _)

theorem accepted_binary {op : BinaryOp} {mark : Token} (hmark : mark.lexeme = .symbol op.mark)
    (hleft : (Phrase.operation op.level left).Accepted ts mark)
    (hright : (Phrase.operation (op.level + 1) right).Accepted us next)
    (hstop : NoOperator (op.level + 1) next) :
    (Phrase.operation op.level (.binary (left.ann.join right.ann) op left right)).Accepted
      (ts ++ mark :: us) next := by
  intro d hd
  simp only [List.length_append, List.length_cons] at hd ⊢
  refine ⟨?_, fun hunary => absurd hunary (Nat.ne_of_lt op.level_lt_unaryLevel)⟩
  intro table htable
  obtain ⟨r, hr, hlead⟩ := (hleft d (by omega)).1 table htable
  -- The rounds that are left are enough: each round so far has passed at least two tokens.
  obtain ⟨r, rfl⟩ : ∃ r', r = r' + 1 := ⟨r - 1, by omega⟩
  have hoperand := accepts_operationAt hright op.level_lt_unaryLevel hstop
    (show us.length ≤ d by omega)
  exact ⟨r, by omega, hlead.trans (leads_binaryRest_step htable hmark hoperand)⟩

theorem accepted_unary {op : UnaryOp} {mark : Token} (hmark : mark.lexeme = .symbol op.mark)
    (h : (Phrase.operation unaryLevel e).Accepted ts next) :
    (Phrase.operation unaryLevel (.unary (mark.span.join e.ann) op e)).Accepted (mark :: ts)
      next := by
  intro d hd
  rw [List.length_cons] at hd
  refine ⟨fun table htable => absurd htable (by simp [binaryLevels, unaryLevel]), ?_⟩
  intro _ rounds hrounds
  rw [List.length_cons] at hrounds
  obtain ⟨rounds, rfl⟩ : ∃ r, rounds = r + 1 := ⟨rounds - 1, by omega⟩
  rw [unary]
  refine Leads.peek ?_
  rw [List.headD_cons, unaryOperator?_eq_some_iff.mpr hmark]
  refine Leads.bind_one (accepts_advance hmark (by simp) _) ?_
  exact Leads.bind_all ((h d (by omega)).2 rfl rounds (by omega)) (accepts_pure _ _)

theorem leads_postfixRest_stop {expr : Parser (Expr Span)} {rounds : Nat}
    (hstop : NoApplication next) (hrounds : 0 < rounds) :
    Accepts (postfixRest expr rounds e) [] next e := by
  obtain ⟨r, rfl⟩ : ∃ r, rounds = r + 1 := ⟨rounds - 1, by omega⟩
  obtain ⟨hparen, hbracket, hdot⟩ := hstop
  rw [postfixRest]
  refine Leads.peek ?_
  rw [List.headD_nil]
  split
  · next h => exact absurd h hparen
  · next h => exact absurd h hbracket
  · next h => exact absurd h hdot
  · exact accepts_pure e next

theorem accepted_noUnary (h : (Phrase.applied e).Accepted ts next) (hstop : NoApplication next)
    (hopen : Opening Lexeme.beginsPrimary ts) :
    (Phrase.operation unaryLevel e).Accepted ts next := by
  intro d hd
  refine ⟨fun table htable => absurd htable (by simp [binaryLevels, unaryLevel]), ?_⟩
  intro _ rounds hrounds
  -- what begins a primary expression is no operator
  obtain ⟨t, us, rfl, ht⟩ := hopen.first
  rw [List.length_cons] at hrounds
  obtain ⟨rounds, rfl⟩ : ∃ r, rounds = r + 1 := ⟨rounds - 1, by omega⟩
  have hnone : unaryOperator? t = none := by
    rw [Option.eq_none_iff_forall_ne_some]
    intro op hop
    rw [unaryOperator?_eq_some_iff.mp hop] at ht
    cases op <;> exact absurd ht (by decide)
  obtain ⟨r, hr, hlead⟩ := h d hd
  rw [unary]
  refine Leads.peek ?_
  rw [List.headD_cons, hnone]
  exact hlead.trans_nil (leads_postfixRest_stop hstop (by omega))

end Operations

/-! ### Applications and primary expressions -/

section Primaries

variable {e f key : Expr Span} {args es : List (Expr Span)} {left right : Token}

theorem accepted_call (hf : (Phrase.applied f).Accepted ts left)
    (hleft : left.lexeme = .symbol .leftParen)
    (hargs : (Phrase.items .rightParen args).Accepted us right)
    (hright : right.lexeme = .symbol .rightParen) :
    (Phrase.applied (.call (f.ann.join right.span) f args)).Accepted
      (ts ++ left :: (us ++ [right])) next := by
  intro d hd
  simp only [List.length_append, List.length_cons, List.length_nil] at hd ⊢
  obtain ⟨r, hr, hlead⟩ := hf d (by omega)
  obtain ⟨r, rfl⟩ : ∃ r', r = r' + 1 := ⟨r - 1, by omega⟩
  refine ⟨r, by omega, hlead.trans ?_⟩
  rw [postfixRest]
  refine Leads.peek ?_
  rw [List.headD_cons, hleft]
  refine Leads.bind_one (accepts_advance hleft (by simp) _) ?_
  refine Leads.bind (hargs rfl d r (by omega) (by omega)) ?_
  exact Leads.bind_one (accepts_expect hright _) (.refl _ _)

theorem accepted_index (he : (Phrase.applied e).Accepted ts left)
    (hleft : left.lexeme = .symbol .leftBracket)
    (hkey : (Phrase.expression key).Accepted us right)
    (hright : right.lexeme = .symbol .rightBracket) :
    (Phrase.applied (.index (e.ann.join right.span) e key)).Accepted
      (ts ++ left :: (us ++ [right])) next := by
  intro d hd
  simp only [List.length_append, List.length_cons, List.length_nil] at hd ⊢
  obtain ⟨r, hr, hlead⟩ := he d (by omega)
  obtain ⟨r, rfl⟩ : ∃ r', r = r' + 1 := ⟨r - 1, by omega⟩
  refine ⟨r, by omega, hlead.trans ?_⟩
  rw [postfixRest]
  refine Leads.peek ?_
  rw [List.headD_cons, hleft]
  refine Leads.bind_one (accepts_advance hleft (by simp) _) ?_
  refine Leads.bind (hkey d (by omega)) ?_
  exact Leads.bind_one (accepts_expect hright _) (.refl _ _)

theorem accepted_field {dot member : Token} {name : String}
    (he : (Phrase.applied e).Accepted ts dot) (hdot : dot.lexeme = .symbol .dot)
    (hmember : member.lexeme = .identifier name) :
    (Phrase.applied (.field (e.ann.join member.span) e name)).Accepted (ts ++ [dot, member])
      next := by
  intro d hd
  simp only [List.length_append, List.length_cons, List.length_nil] at hd ⊢
  obtain ⟨r, hr, hlead⟩ := he d (by omega)
  obtain ⟨r, rfl⟩ : ∃ r', r = r' + 1 := ⟨r - 1, by omega⟩
  refine ⟨r, by omega, hlead.trans ?_⟩
  rw [postfixRest]
  refine Leads.peek ?_
  rw [List.headD_cons, hdot]
  refine Leads.bind_one (accepts_advance hdot (by simp) _) ?_
  exact Leads.bind_one (accepts_identifier hmember _) (.refl _ _)

theorem accepted_notApplied (h : (Phrase.primary e).Accepted ts next) (hne : ts ≠ []) :
    (Phrase.applied e).Accepted ts next := by
  intro d hd
  have hlength := List.length_pos_iff.mpr hne
  exact ⟨d, by omega, Leads.bind_all (h d hd) (.refl _ _)⟩

theorem accepted_number {numeral : String} {value : Float} (ht : t.lexeme = .number numeral)
    (hvalue : Numeral.read? numeral = some value) :
    (Phrase.primary (.number t.span value)).Accepted [t] next := by
  intro d _
  rw [primary]
  refine Leads.peek ?_
  simp only [List.headD_cons, ht, hvalue]
  exact Leads.bind_one (accepts_advance ht (by simp) _) (accepts_pure _ _)

theorem accepted_parens (hleft : left.lexeme = .symbol .leftParen)
    (h : (Phrase.expression e).Accepted ts right) (hright : right.lexeme = .symbol .rightParen) :
    (Phrase.primary (e.setAnn (left.span.join right.span))).Accepted (left :: (ts ++ [right]))
      next := by
  intro d hd
  simp only [List.length_append, List.length_cons, List.length_nil] at hd
  rw [primary]
  refine Leads.peek ?_
  simp only [List.headD_cons, hleft]
  refine Leads.bind_one (accepts_advance hleft (by simp) _) ?_
  refine Leads.bind (h d (by omega)) ?_
  exact Leads.bind_one (accepts_expect hright _) (accepts_pure _ _)

theorem accepted_array (hleft : left.lexeme = .symbol .leftBracket)
    (h : (Phrase.items .rightBracket es).Accepted ts right)
    (hright : right.lexeme = .symbol .rightBracket) :
    (Phrase.primary (.array (left.span.join right.span) es)).Accepted (left :: (ts ++ [right]))
      next := by
  intro d hd
  simp only [List.length_append, List.length_cons, List.length_nil] at hd
  rw [primary]
  refine Leads.peek ?_
  simp only [List.headD_cons, hleft]
  refine Leads.bind_one (accepts_advance hleft (by simp) _) ?_
  refine Leads.bind (h rfl d d (by omega) (by omega)) ?_
  exact Leads.bind_one (accepts_expect hright _) (accepts_pure _ _)

theorem accepted_map {es : List (String × Expr Span)} (hleft : left.lexeme = .symbol .leftBrace)
    (h : (Phrase.entries es).Accepted ts right) (hright : right.lexeme = .symbol .rightBrace) :
    (Phrase.primary (.map (left.span.join right.span) es)).Accepted (left :: (ts ++ [right]))
      next := by
  intro d hd
  simp only [List.length_append, List.length_cons, List.length_nil] at hd
  rw [primary]
  refine Leads.peek ?_
  simp only [List.headD_cons, hleft]
  refine Leads.bind_one (accepts_advance hleft (by simp) _) ?_
  refine Leads.bind (h d d (by omega) (by omega)) ?_
  exact Leads.bind_one (accepts_expect hright _) (accepts_pure _ _)

end Primaries

/-! ### Lists -/

section Lists

variable {item : Parser α} {a : α} {as : List α} {close : Symbol} {rounds : Nat}

theorem accepts_items_nil (hclose : next.lexeme = .symbol close) :
    Accepts (items close item (rounds + 1)) [] next [] := by
  rw [items]
  refine Leads.peek ?_
  rw [List.headD_nil, if_pos (Token.isSymbol_iff.mpr hclose)]
  exact accepts_pure _ _

theorem accepts_items_one (hopen : t.lexeme ≠ .symbol close)
    (hitem : Accepts item (t :: ts) next a) (hnext : next.lexeme ≠ .symbol .comma) :
    Accepts (items close item (rounds + 1)) (t :: ts) next [a] := by
  rw [items]
  refine Leads.peek ?_
  rw [List.headD_cons, if_neg (by rwa [Token.isSymbol_iff])]
  exact Leads.bind_all hitem (Leads.bind_none (accepts_accept_other hnext) (accepts_pure _ _))

theorem accepts_items_cons {comma : Token} (hopen : t.lexeme ≠ .symbol close)
    (hitem : Accepts item (t :: ts) comma a) (hcomma : comma.lexeme = .symbol .comma)
    (hmore : Accepts (items close item rounds) us next as) :
    Accepts (items close item (rounds + 1)) (t :: (ts ++ comma :: us)) next (a :: as) := by
  rw [items]
  refine Leads.peek ?_
  rw [List.headD_cons, if_neg (by rwa [Token.isSymbol_iff])]
  rw [← List.cons_append]
  refine Leads.bind hitem (Leads.bind_one (accepts_accept hcomma _) ?_)
  exact Leads.bind_all hmore (accepts_pure _ _)

/-- An expression does not begin with a symbol that closes a list. -/
theorem ne_close (ht : t.lexeme.beginsExpression = true)
    (hclose : Lexeme.beginsExpression (.symbol close) = false) : t.lexeme ≠ .symbol close := by
  intro heq
  rw [heq, hclose] at ht
  exact absurd ht (by simp)

theorem accepts_mapEntry {name : String} {e : Expr Span} {key colon : Token}
    (hkey : key.key? = some name) (hcolon : colon.lexeme = .symbol .colon)
    (h : Accepts (expression d) ts next e) :
    Accepts (mapEntry (expression d)) (key :: colon :: ts) next (name, e) := by
  have hend : key.lexeme ≠ .endOfInput := by
    intro hend
    simp [Token.key?, hend] at hkey
  rw [mapEntry]
  refine Leads.bind_one (accepts_advance rfl hend _) ?_
  simp only [hkey]
  refine Leads.bind_one (accepts_expect hcolon _) ?_
  exact Leads.bind_all h (accepts_pure _ _)

theorem key_ne_symbol {key : Token} {name : String} (hkey : key.key? = some name) (mark : Symbol) :
    key.lexeme ≠ .symbol mark := by
  intro hmark
  simp [Token.key?, hmark] at hkey

theorem accepted_oneParam {name : String} (ht : t.lexeme = .identifier name)
    (hnext : next.lexeme ≠ .symbol .comma) : (Phrase.params [name]).Accepted [t] next := by
  intro rounds hrounds
  rw [List.length_singleton] at hrounds
  have hnames : Accepts (parameterNames rounds) [t] next [name] := by
    obtain ⟨rounds, rfl⟩ : ∃ r, rounds = r + 1 := ⟨rounds - 1, by omega⟩
    rw [parameterNames]
    refine Leads.bind_one (accepts_identifier ht _) ?_
    exact Leads.bind_none (accepts_accept_other hnext) (accepts_pure _ _)
  refine ⟨?_, fun _ => hnames⟩
  rw [parameters]
  refine Leads.peek ?_
  rw [List.headD_cons, if_neg (by simp [Token.isSymbol_iff, ht])]
  exact hnames

theorem accepted_moreParams {name other : String} {names : List String} {comma : Token}
    (ht : t.lexeme = .identifier name) (hcomma : comma.lexeme = .symbol .comma)
    (hmore : (Phrase.params (other :: names)).Accepted ts next) :
    (Phrase.params (name :: other :: names)).Accepted (t :: comma :: ts) next := by
  intro rounds hrounds
  simp only [List.length_cons] at hrounds
  have hnames :
      Accepts (parameterNames rounds) (t :: comma :: ts) next (name :: other :: names) := by
    obtain ⟨rounds, rfl⟩ : ∃ r, rounds = r + 1 := ⟨rounds - 1, by omega⟩
    rw [parameterNames]
    refine Leads.bind_one (accepts_identifier ht _) ?_
    refine Leads.bind_one (accepts_accept hcomma _) ?_
    exact Leads.bind_all ((hmore rounds (by omega)).2 (by simp)) (accepts_pure _ _)
  refine ⟨?_, fun _ => hnames⟩
  rw [parameters]
  refine Leads.peek ?_
  rw [List.headD_cons, if_neg (by simp [Token.isSymbol_iff, ht])]
  exact hnames

theorem accepted_code {names : List String} {body : List (Stmt Span)} {left right : Token}
    (hleft : left.lexeme = .symbol .leftParen) (hparams : (Phrase.params names).Accepted ts right)
    (hright : right.lexeme = .symbol .rightParen) (hbody : (Phrase.block body).Accepted us next) :
    (Phrase.code names body).Accepted (left :: (ts ++ right :: us)) next := by
  intro d hd
  simp only [List.length_append, List.length_cons] at hd
  rw [functionRest]
  refine Leads.bind_one (accepts_expect hleft _) ?_
  refine Leads.bind (hparams d (by omega)).1 ?_
  refine Leads.bind_one (accepts_expect hright _) ?_
  exact Leads.bind_all (hbody d (by omega)) (accepts_pure _ _)

end Lists

/-! ### Function literals and assignments -/

section Expressions

variable {names : List String} {body : List (Stmt Span)} {word : Token}

/-- A function literal takes its span from the tokens that have been passed. -/
theorem accepted_lambda (hword : word.lexeme = .keyword .function)
    (hopen : (ts.headD next).isIdentifier = false)
    (h : (Phrase.code names body).Accepted ts next) :
    (Phrase.primary (.lambda (cover (word :: ts)) none names body)).Accepted (word :: ts) next := by
  intro d hd s s' hpass hnext
  rw [List.length_cons] at hd
  have hlead : Leads (primary d (expression d) (block d (statement d))) (word :: ts) next
      (do return .lambda (← spanFrom word.span.start) none names body) := by
    rw [primary]
    refine Leads.peek ?_
    simp only [List.headD_cons, hword]
    refine Leads.bind_one (accepts_advance hword (by simp) _) ?_
    have hname : Accepts literalName [] (ts.headD next) none := by
      rw [literalName]
      refine Leads.peek ?_
      rw [List.headD_nil, hopen]
      exact accepts_pure _ _
    exact Leads.bind_none hname (Leads.bind_all (h d (by omega)) (.refl _ _))
  rw [hlead hpass hnext, bind_of_ok (spanFrom_of_passes hpass)]

theorem accepted_namedLambda {name : String} {label : Token}
    (hword : word.lexeme = .keyword .function) (hlabel : label.lexeme = .identifier name)
    (h : (Phrase.code names body).Accepted ts next) :
    (Phrase.primary (.lambda (cover (word :: label :: ts)) (some name) names body)).Accepted
      (word :: label :: ts) next := by
  intro d hd s s' hpass hnext
  simp only [List.length_cons] at hd
  have hlead : Leads (primary d (expression d) (block d (statement d))) (word :: label :: ts) next
      (do return .lambda (← spanFrom word.span.start) (some name) names body) := by
    rw [primary]
    refine Leads.peek ?_
    simp only [List.headD_cons, hword]
    refine Leads.bind_one (accepts_advance hword (by simp) _) ?_
    have hname : Accepts literalName [label] (ts.headD next) (some name) := by
      rw [literalName]
      refine Leads.peek ?_
      rw [List.headD_cons, if_pos (Token.isIdentifier_iff.mpr ⟨name, hlabel⟩)]
      exact Leads.bind_one (accepts_identifier hlabel _) (accepts_pure _ _)
    exact Leads.bind_one hname (Leads.bind_all (h d (by omega)) (.refl _ _))
  rw [hlead hpass hnext, bind_of_ok (spanFrom_of_passes hpass)]

theorem accepted_assign {place value : Expr Span} {target : Target Span} {mark : Token}
    (hplace : (Phrase.operation 0 place).Accepted ts mark)
    (htarget : place.toTarget? = some target) (hmark : mark.lexeme = .symbol .assign)
    (hvalue : (Phrase.expression value).Accepted us next) :
    (Phrase.expression (.assign (place.ann.join value.ann) target value)).Accepted
      (ts ++ mark :: us) next := by
  intro d hd
  simp only [List.length_append, List.length_cons] at hd
  obtain ⟨d, rfl⟩ : ∃ d', d = d' + 1 := ⟨d - 1, by omega⟩
  have hstop : NoOperator 0 mark := by
    intro op _
    cases op <;> simp [hmark, BinaryOp.mark]
  rw [expression, assignment]
  refine Leads.bind (accepts_operationAt hplace (by decide) hstop (by omega)) ?_
  refine Leads.peek ?_
  rw [List.headD_cons, if_pos (Token.isSymbol_iff.mpr hmark)]
  refine Leads.bind_one (accepts_advance hmark (by simp) _) ?_
  refine Leads.bind_all (hvalue d (by omega)) ?_
  rw [htarget]
  exact accepts_pure _ _

theorem accepted_noAssign {e : Expr Span} (h : (Phrase.operation 0 e).Accepted ts next)
    (hop : NoOperator 0 next) (hassign : next.lexeme ≠ .symbol .assign) :
    (Phrase.expression e).Accepted ts next := by
  intro d hd
  obtain ⟨d, rfl⟩ : ∃ d', d = d' + 1 := ⟨d - 1, by omega⟩
  rw [expression, assignment]
  refine Leads.bind_all (accepts_operationAt h (by decide) hop (by omega)) ?_
  refine Leads.peek ?_
  rw [List.headD_nil, if_neg (by rwa [Token.isSymbol_iff])]
  exact accepts_pure _ _

end Expressions

/-! ### Statements -/

section Statements

variable {e test : Expr Span} {body yes no : List (Stmt Span)} {name : String}
variable {word left right label : Token}

theorem accepted_moreStatements {s : Stmt Span} (hopen : Opening Lexeme.beginsStatement ts)
    (h : (Phrase.statement s).Accepted ts (us.headD next))
    (hmore : (Phrase.statements body).Accepted us next) :
    (Phrase.statements (s :: body)).Accepted (ts ++ us) next := by
  intro d rounds hd hrounds
  obtain ⟨t, vs, rfl, ht⟩ := hopen.first
  simp only [List.length_append, List.length_cons] at hd hrounds
  obtain ⟨rounds, rfl⟩ : ∃ r, rounds = r + 1 := ⟨rounds - 1, by omega⟩
  rw [statements]
  refine Leads.peek ?_
  have hgo : ¬(t.isSymbol .rightBrace || t.isEnd) = true := by
    rw [Bool.or_eq_true, Token.isSymbol_iff, Token.isEnd_iff]
    rintro (hbrace | hend)
    · exact absurd (hbrace ▸ ht) (by decide)
    · exact absurd (hend ▸ ht) (by decide)
  rw [List.cons_append, List.headD_cons, if_neg hgo]
  refine Leads.bind (h d (by rw [List.length_cons]; omega)) ?_
  exact Leads.bind_all (hmore d rounds (by omega) (by omega)) (accepts_pure _ _)

theorem accepted_block (hleft : left.lexeme = .symbol .leftBrace)
    (h : (Phrase.statements body).Accepted ts right) (hright : right.lexeme = .symbol .rightBrace) :
    (Phrase.block body).Accepted (left :: (ts ++ [right])) next := by
  intro d hd
  simp only [List.length_append, List.length_cons, List.length_nil] at hd
  rw [block]
  refine Leads.bind_one (accepts_expect hleft _) ?_
  refine Leads.bind (h d d (by omega) (by omega)) ?_
  exact Leads.bind_one (accepts_expect hright _) (accepts_pure _ _)

theorem accepted_blockBranch (h : (Phrase.block body).Accepted ts next)
    (hopen : opensBrace ts = true) : (Phrase.branch body).Accepted ts next := by
  intro d hd
  cases ts with
  | nil => simp [opensBrace] at hopen
  | cons t ts =>
    rw [opensBrace] at hopen
    rw [branch]
    refine Leads.peek ?_
    rw [List.headD_cons, if_pos hopen]
    exact h d (by omega)

theorem accepted_singleBranch {s : Stmt Span} (h : (Phrase.statement s).Accepted ts next)
    (hopen : opensBrace ts = false) (hne : ts ≠ []) : (Phrase.branch [s]).Accepted ts next := by
  intro d hd
  obtain ⟨t, ts, rfl⟩ := List.exists_cons_of_ne_nil hne
  rw [opensBrace, Bool.eq_false_iff] at hopen
  rw [branch]
  refine Leads.peek ?_
  rw [List.headD_cons, if_neg hopen]
  exact Leads.bind_all (h d hd) (accepts_pure _ _)

/-- A form without and with a semicolon after it.  The span is that of the form alone. -/
theorem accepted_bare {build : Span → Stmt Span} (h : (Phrase.form build).Accepted ts next)
    (hne : ts ≠ []) (hnext : next.lexeme ≠ .symbol .semicolon) :
    (Phrase.statement (build (cover ts))).Accepted ts next := by
  intro d hd s s' hpass hs'
  obtain ⟨d, rfl⟩ : ∃ d', d = d' + 1 := ⟨d - 1, by omega⟩
  obtain ⟨t, ts, rfl⟩ := List.exists_cons_of_ne_nil hne
  have hform : statementForm d (expression d) (statement d) s = .ok build s' :=
    h d (by omega) hpass hs'
  have hmark : accept .semicolon s' = .ok false s' := accepts_accept_other hnext (.refl s') hs'
  rw [statement, placedStatement, peek_bind, bind_of_ok hform, hpass.here_eq,
    bind_of_ok (spanFrom_of_passes hpass), bind_of_ok hmark]

theorem accepted_ended {build : Span → Stmt Span} {mark : Token}
    (h : (Phrase.form build).Accepted ts mark) (hne : ts ≠ [])
    (hmark : mark.lexeme = .symbol .semicolon) :
    (Phrase.statement (build (cover ts))).Accepted (ts ++ [mark]) next := by
  intro d hd s s' hpass hs'
  rw [List.length_append, List.length_singleton] at hd
  obtain ⟨d, rfl⟩ : ∃ d', d = d' + 1 := ⟨d - 1, by omega⟩
  obtain ⟨s₁, hpass₁, hpass₂⟩ := hpass.split
  obtain ⟨t, ts, rfl⟩ := List.exists_cons_of_ne_nil hne
  have hform : statementForm d (expression d) (statement d) s = .ok build s₁ :=
    h d (by omega) hpass₁ hpass₂.here_eq
  have hmark : accept .semicolon s₁ = .ok true s' := accepts_accept hmark next hpass₂ hs'
  rw [statement, placedStatement, peek_bind, bind_of_ok hform, hpass₁.here_eq,
    bind_of_ok (spanFrom_of_passes hpass₁), bind_of_ok hmark]

/-- A keyword at the beginning of a statement decides its form. -/
theorem accepted_letVar (hword : word.lexeme = .keyword .letWord)
    (hlabel : label.lexeme = .identifier name) (hnext : next.lexeme ≠ .symbol .assign) :
    (Phrase.form fun span => .letVar span name none).Accepted [word, label] next := by
  intro d _
  rw [statementForm]
  refine Leads.peek ?_
  simp only [List.headD_cons, hword, letStatement]
  refine Leads.bind_one (accepts_expectKeyword hword _) ?_
  refine Leads.bind_one (accepts_identifier hlabel _) ?_
  exact Leads.bind_none (accepts_accept_other hnext) (accepts_pure _ _)

theorem accepted_letInit {mark : Token} (hword : word.lexeme = .keyword .letWord)
    (hlabel : label.lexeme = .identifier name) (hmark : mark.lexeme = .symbol .assign)
    (h : (Phrase.expression e).Accepted ts next) :
    (Phrase.form fun span => .letVar span name (some e)).Accepted (word :: label :: mark :: ts)
      next := by
  intro d hd
  simp only [List.length_cons] at hd
  rw [statementForm]
  refine Leads.peek ?_
  simp only [List.headD_cons, hword, letStatement]
  refine Leads.bind_one (accepts_expectKeyword hword _) ?_
  refine Leads.bind_one (accepts_identifier hlabel _) ?_
  refine Leads.bind_one (accepts_accept hmark _) ?_
  exact Leads.bind_all (h d (by omega)) (accepts_pure _ _)

theorem accepted_function {names : List String} (hword : word.lexeme = .keyword .function)
    (hlabel : label.lexeme = .identifier name) (h : (Phrase.code names body).Accepted ts next) :
    (Phrase.form fun span => .function span name names body).Accepted (word :: label :: ts)
      next := by
  intro d hd
  simp only [List.length_cons] at hd
  have hfunction : Accepts (functionStatement d (statement d)) (word :: label :: ts) next
      (fun span => .function span name names body) := by
    rw [functionStatement]
    refine Leads.bind_one (accepts_expectKeyword hword _) ?_
    refine Leads.bind_one (accepts_identifier hlabel _) ?_
    exact Leads.bind_all (h d (by omega)) (accepts_pure _ _)
  intro s s' hpass hnext
  have hidentifier : (s.peekNth 1).isIdentifier = true := by
    rw [hpass.peekNth_eq (n := 1) rfl]
    exact Token.isIdentifier_iff.mpr ⟨name, hlabel⟩
  simp only [statementForm, peek_bind, hpass.here_eq, hword, peekNth_bind, hidentifier, if_true]
  exact hfunction hpass hnext

theorem accepts_condition (hleft : left.lexeme = .symbol .leftParen)
    (h : Accepts (expression d) ts right e) (hright : right.lexeme = .symbol .rightParen) :
    Accepts (condition (expression d)) (left :: (ts ++ [right])) next e := by
  rw [condition]
  refine Leads.bind_one (accepts_expect hleft _) ?_
  refine Leads.bind h ?_
  exact Leads.bind_one (accepts_expect hright _) (accepts_pure _ _)

/-- The word, the condition and the branch that a choice and a loop begin with. -/
theorem leads_guarded {keyword : Keyword} {vs : List Token}
    {f : Expr Span → List (Stmt Span) → Parser α} {g : Parser α}
    (hword : word.lexeme = .keyword keyword) (hleft : left.lexeme = .symbol .leftParen)
    (htest : Accepts (expression d) ts right test) (hright : right.lexeme = .symbol .rightParen)
    (hbody : Accepts (branch d (statement d)) us (vs.headD next) body)
    (hf : Leads (f test body) vs next g) :
    Leads (do
      let _ ← expectKeyword keyword
      let test ← condition (expression d)
      let body ← branch d (statement d)
      f test body) (word :: left :: (ts ++ right :: (us ++ vs))) next g := by
  refine Leads.bind_one (accepts_expectKeyword hword _) ?_
  have happ : left :: (ts ++ right :: (us ++ vs)) = (left :: (ts ++ [right])) ++ (us ++ vs) := by
    simp
  rw [happ]
  exact Leads.bind (accepts_condition hleft htest hright) (Leads.bind hbody hf)

theorem accepted_ifThen (hword : word.lexeme = .keyword .ifWord)
    (hleft : left.lexeme = .symbol .leftParen) (htest : (Phrase.expression test).Accepted ts right)
    (hright : right.lexeme = .symbol .rightParen) (hyes : (Phrase.branch yes).Accepted us next)
    (hnext : next.lexeme ≠ .keyword .elseWord) :
    (Phrase.form fun span => .ifElse span test yes none).Accepted
      (word :: left :: (ts ++ right :: us)) next := by
  intro d hd
  simp only [List.length_append, List.length_cons] at hd
  rw [statementForm]
  refine Leads.peek ?_
  simp only [List.headD_cons, hword]
  rw [← List.append_nil us]
  exact leads_guarded hword hleft (htest d (by omega)) hright (hyes d (by omega))
    (Leads.bind_none (accepts_acceptKeyword_other hnext) (accepts_pure _ _))

theorem accepted_ifElse {other : Token} {vs : List Token} (hword : word.lexeme = .keyword .ifWord)
    (hleft : left.lexeme = .symbol .leftParen) (htest : (Phrase.expression test).Accepted ts right)
    (hright : right.lexeme = .symbol .rightParen) (hyes : (Phrase.branch yes).Accepted us other)
    (hother : other.lexeme = .keyword .elseWord) (hno : (Phrase.branch no).Accepted vs next) :
    (Phrase.form fun span => .ifElse span test yes (some no)).Accepted
      (word :: left :: (ts ++ right :: (us ++ other :: vs))) next := by
  intro d hd
  simp only [List.length_append, List.length_cons] at hd
  rw [statementForm]
  refine Leads.peek ?_
  simp only [List.headD_cons, hword]
  refine leads_guarded hword hleft (htest d (by omega)) hright (hyes d (by omega)) ?_
  refine Leads.bind_one (accepts_acceptKeyword hother _) ?_
  exact Leads.bind_all (hno d (by omega)) (accepts_pure _ _)

theorem accepted_whileLoop (hword : word.lexeme = .keyword .whileWord)
    (hleft : left.lexeme = .symbol .leftParen) (htest : (Phrase.expression test).Accepted ts right)
    (hright : right.lexeme = .symbol .rightParen) (hbody : (Phrase.branch body).Accepted us next) :
    (Phrase.form fun span => .whileLoop span test body).Accepted
      (word :: left :: (ts ++ right :: us)) next := by
  intro d hd
  simp only [List.length_append, List.length_cons] at hd
  rw [statementForm]
  refine Leads.peek ?_
  simp only [List.headD_cons, hword]
  rw [← List.append_nil us]
  exact leads_guarded hword hleft (htest d (by omega)) hright (hbody d (by omega))
    (accepts_pure _ _)

theorem accepted_forEach {within : Token} (hword : word.lexeme = .keyword .forWord)
    (hleft : left.lexeme = .symbol .leftParen) (hlabel : label.lexeme = .identifier name)
    (hwithin : within.lexeme = .keyword .inWord) (h : (Phrase.expression e).Accepted ts right)
    (hright : right.lexeme = .symbol .rightParen) (hbody : (Phrase.branch body).Accepted us next) :
    (Phrase.form fun span => .forEach span name e body).Accepted
      (word :: left :: label :: within :: (ts ++ right :: us)) next := by
  intro d hd
  simp only [List.length_append, List.length_cons] at hd
  rw [statementForm]
  refine Leads.peek ?_
  simp only [List.headD_cons, hword, forStatement]
  refine Leads.bind_one (accepts_expectKeyword hword _) ?_
  refine Leads.bind_one (accepts_expect hleft _) ?_
  refine Leads.bind_one (accepts_identifier hlabel _) ?_
  refine Leads.bind_one (accepts_expectKeyword hwithin _) ?_
  refine Leads.bind (h d (by omega)) ?_
  refine Leads.bind_one (accepts_expect hright _) ?_
  exact Leads.bind_all (hbody d (by omega)) (accepts_pure _ _)

theorem accepted_tryCatch {handler : List (Stmt Span)} {rescue : Token}
    (hword : word.lexeme = .keyword .tryWord) (hbody : (Phrase.block body).Accepted ts rescue)
    (hrescue : rescue.lexeme = .keyword .catchWord) (hleft : left.lexeme = .symbol .leftParen)
    (hlabel : label.lexeme = .identifier name) (hright : right.lexeme = .symbol .rightParen)
    (hhandler : (Phrase.block handler).Accepted us next) :
    (Phrase.form fun span => .tryCatch span body name handler).Accepted
      (word :: (ts ++ rescue :: left :: label :: right :: us)) next := by
  intro d hd
  simp only [List.length_append, List.length_cons] at hd
  rw [statementForm]
  refine Leads.peek ?_
  simp only [List.headD_cons, hword, tryStatement]
  refine Leads.bind_one (accepts_expectKeyword hword _) ?_
  refine Leads.bind (hbody d (by omega)) ?_
  refine Leads.bind_one (accepts_expectKeyword hrescue _) ?_
  refine Leads.bind_one (accepts_expect hleft _) ?_
  refine Leads.bind_one (accepts_identifier hlabel _) ?_
  refine Leads.bind_one (accepts_expect hright _) ?_
  exact Leads.bind_all (hhandler d (by omega)) (accepts_pure _ _)

theorem accepted_throw (hword : word.lexeme = .keyword .throwWord)
    (h : (Phrase.expression e).Accepted ts next) :
    (Phrase.form fun span => .throw span e).Accepted (word :: ts) next := by
  intro d hd
  rw [List.length_cons] at hd
  rw [statementForm]
  refine Leads.peek ?_
  simp only [List.headD_cons, hword, throwStatement]
  refine Leads.bind_one (accepts_expectKeyword hword _) ?_
  exact Leads.bind_all (h d (by omega)) (accepts_pure _ _)

theorem accepted_ret (hword : word.lexeme = .keyword .returnWord) (hnext : EndsStatement next) :
    (Phrase.form fun span => .ret span none).Accepted [word] next := by
  intro d _
  rw [statementForm]
  refine Leads.peek ?_
  simp only [List.headD_cons, hword, returnStatement]
  refine Leads.bind_one (accepts_expectKeyword hword _) (Leads.peek ?_)
  rw [List.headD_nil, if_pos (endsStatement_iff.mpr hnext)]
  exact accepts_pure _ _

theorem accepted_retValue (hword : word.lexeme = .keyword .returnWord)
    (h : (Phrase.expression e).Accepted ts next) (hopen : Opening Lexeme.beginsExpression ts) :
    (Phrase.form fun span => .ret span (some e)).Accepted (word :: ts) next := by
  intro d hd
  rw [List.length_cons] at hd
  obtain ⟨t, us, rfl, ht⟩ := hopen.first
  have hgo : ¬endsStatement t = true := by
    rw [endsStatement_iff]
    rintro (hend | hend | hend) <;> exact absurd (hend ▸ ht) (by decide)
  rw [statementForm]
  refine Leads.peek ?_
  simp only [List.headD_cons, hword, returnStatement]
  refine Leads.bind_one (accepts_expectKeyword hword _) (Leads.peek ?_)
  rw [List.headD_cons, if_neg hgo]
  exact Leads.bind_all (h d (by omega)) (accepts_pure _ _)

/-! ### The choice of a form -/

/-- Neither an empty block nor one that begins with a statement looks like a map. -/
theorem startsMap_of_block {s s' : TokenStream}
    (hopen : ts = [] ∨ Opening Lexeme.beginsStatement ts)
    (hright : right.lexeme = .symbol .rightBrace) (hpass : s.Passes (left :: (ts ++ [right])) s') :
    startsMap s = .ok false s := by
  have hmap : ((s.peekNth 1).key?.isSome && (s.peekNth 2).isSymbol .colon) = false := by
    match ts, hopen with
    | [], _ =>
      rw [hpass.peekNth_eq (n := 1) rfl]
      simp [Token.key?, hright]
    | [t], _ =>
      rw [hpass.peekNth_eq (n := 2) rfl]
      simp [Token.isSymbol, hright]
    | t :: u :: us, .inr hopen =>
      rw [hpass.peekNth_eq (n := 1) rfl, hpass.peekNth_eq (n := 2) rfl]
      cases hkey : t.key?.isSome with
      | false => rfl
      | true => simpa [Token.isSymbol] using hopen.colon t u us rfl hkey
  simp only [startsMap, peekNth_bind, hmap]
  rfl

theorem accepted_blockForm (hleft : left.lexeme = .symbol .leftBrace)
    (hopen : ts = [] ∨ Opening Lexeme.beginsStatement ts)
    (hright : right.lexeme = .symbol .rightBrace)
    (h : (Phrase.block body).Accepted (left :: (ts ++ [right])) next) :
    (Phrase.form fun span => .block span body).Accepted (left :: (ts ++ [right])) next := by
  intro d hd s s' hpass hnext
  have hbody : block d (statement d) s = .ok body s' := h d (by omega) hpass hnext
  simp only [statementForm, peek_bind, hpass.here_eq, hleft]
  rw [bind_of_ok (startsMap_of_block hopen hright hpass)]
  simp only [Bool.false_eq_true, if_false]
  rw [bind_of_ok hbody]

/-- A brace at the beginning of an expression that does not look like a block opens a map. -/
theorem startsMap_of_expression {s s' : TokenStream} (hopen : Opening Lexeme.beginsExpression ts)
    (hblock : opensBlock ts = false) (hbrace : s.here.lexeme = .symbol .leftBrace)
    (hpass : s.Passes ts s') : startsMap s = .ok true s := by
  obtain ⟨t, us, rfl, -⟩ := hopen.first
  rw [hpass.here_eq] at hbrace
  have hmap : ((s.peekNth 1).key?.isSome && (s.peekNth 2).isSymbol .colon) = true := by
    match us, hopen.brace t us rfl hbrace with
    | [right], .inr ⟨_, rfl, hright⟩ => simp [opensBlock, Token.isSymbol, hbrace, hright] at hblock
    | key :: colon :: us, _ =>
      rw [hpass.peekNth_eq (n := 1) rfl, hpass.peekNth_eq (n := 2) rfl]
      simpa [opensBlock, Token.isSymbol, hbrace] using hblock
  simp only [startsMap, peekNth_bind, hmap]
  rfl

theorem accepted_exprForm (hopen : Opening Lexeme.beginsExpression ts)
    (h : (Phrase.expression e).Accepted ts next) (hblock : opensBlock ts = false)
    (hdeclaration : opensDeclaration ts = false) :
    (Phrase.form fun span => .expr span e).Accepted ts next := by
  intro d hd s s' hpass hnext
  have hexpression : expressionStatement (expression d) s = .ok (fun span => .expr span e) s' := by
    have hvalue : expression d s = .ok e s' := h d hd hpass hnext
    rw [expressionStatement, bind_of_ok hvalue]
    rfl
  obtain ⟨t, us, hts, ht⟩ := hopen.first
  have hpass' : s.Passes (t :: us) s' := hts ▸ hpass
  have hhere := hpass'.here_eq
  rw [← hhere] at ht
  -- Of the lexemes that begin an expression, two may begin a statement of another form.
  by_cases hbrace : s.here.lexeme = .symbol .leftBrace
  · simp only [statementForm, peek_bind, hbrace]
    rw [bind_of_ok (startsMap_of_expression hopen hblock hbrace hpass)]
    exact hexpression
  by_cases hfunction : s.here.lexeme = .keyword .function
  · have hnext : (s.peekNth 1).isIdentifier = false := by
      obtain ⟨u, us, rfl⟩ := List.exists_cons_of_ne_nil (hopen.word t us hts (hhere ▸ hfunction))
      rw [hpass'.peekNth_eq (n := 1) rfl]
      rw [hhere] at hfunction
      simpa [hts, opensDeclaration, Token.isKeyword, hfunction] using hdeclaration
    simp only [statementForm, peek_bind, hfunction, peekNth_bind, hnext]
    exact hexpression
  rw [statementForm, peek_bind]
  cases hlex : s.here.lexeme with
  | keyword word =>
    rw [hlex] at ht
    cases word
    case function => exact absurd hlex hfunction
    case trueWord | falseWord | undefined => exact hexpression
    all_goals exact absurd ht (by decide)
  | symbol mark =>
    cases mark
    case leftBrace => exact absurd hlex hbrace
    all_goals exact hexpression
  | _ => exact hexpression

end Statements

/-- **Every derivation is found.**  The induction follows the productions; each has its own lemma
about the parser that is responsible for it. -/
theorem Derives.accepted {phrase : Phrase} (h : Derives phrase ts next) :
    phrase.Accepted ts next := by
  induction h with
  | assign _ htarget hmark _ ihplace ihvalue => exact accepted_assign ihplace htarget hmark ihvalue
  | noAssign _ hop hassign ih => exact accepted_noAssign ih hop hassign
  | binary _ hmark _ hop ihleft ihright => exact accepted_binary hmark ihleft ihright hop
  | tighter hlevel h hop ih => exact accepted_tighter hlevel (h.ne_nil rfl) ih hop
  | unary hmark _ ih => exact accepted_unary hmark ih
  | noUnary h hnext ih => exact accepted_noUnary ih hnext h.opens
  | call _ hleft _ hright ihf ihargs => exact accepted_call ihf hleft ihargs hright
  | index _ hleft _ hright ihe ihkey => exact accepted_index ihe hleft ihkey hright
  | field _ hdot hmember ih => exact accepted_field ih hdot hmember
  | notApplied h ih => exact accepted_notApplied ih (h.ne_nil rfl)
  | number ht hvalue => exact accepted_number ht hvalue
  | text ht | trueWord ht | falseWord ht | undefined ht | var ht =>
    intro d _
    rw [primary]
    refine Leads.peek ?_
    simp only [List.headD_cons, ht]
    exact Leads.bind_one (accepts_advance ht (by simp) _) (accepts_pure _ _)
  | parens hleft _ hright ih => exact accepted_parens hleft ih hright
  | array hleft _ hright ih => exact accepted_array hleft ih hright
  | map hleft _ hright ih => exact accepted_map hleft ih hright
  | lambda hword h ih =>
    refine accepted_lambda hword ?_ ih
    cases h with
    | code hleft _ _ _ => simp [Token.isIdentifier, hleft]
  | namedLambda hword hlabel _ ih => exact accepted_namedLambda hword hlabel ih
  | noItems hclose =>
    intro _ d rounds _ hrounds
    obtain ⟨rounds, rfl⟩ : ∃ r, rounds = r + 1 := ⟨rounds - 1, by omega⟩
    exact accepts_items_nil hclose
  | oneItem h hnext ih =>
    intro hclose d rounds hd hrounds
    obtain ⟨rounds, rfl⟩ : ∃ r, rounds = r + 1 := ⟨rounds - 1, by omega⟩
    obtain ⟨t, us, rfl, ht⟩ := h.opens.first
    exact accepts_items_one (ne_close ht hclose) (ih d hd) hnext
  | moreItems h hcomma _ ih ihmore =>
    intro hclose d rounds hd hrounds
    simp only [List.length_append, List.length_cons] at hd hrounds
    obtain ⟨rounds, rfl⟩ : ∃ r, rounds = r + 1 := ⟨rounds - 1, by omega⟩
    obtain ⟨t, us, rfl, ht⟩ := h.opens.first
    exact accepts_items_cons (ne_close ht hclose) (ih d (by omega)) hcomma
      (ihmore hclose d rounds (by omega) (by omega))
  | noEntries hclose =>
    intro d rounds _ hrounds
    obtain ⟨rounds, rfl⟩ : ∃ r, rounds = r + 1 := ⟨rounds - 1, by omega⟩
    exact accepts_items_nil hclose
  | oneEntry hkey hcolon _ hnext ih =>
    intro d rounds hd hrounds
    simp only [List.length_cons] at hd hrounds
    obtain ⟨rounds, rfl⟩ : ∃ r, rounds = r + 1 := ⟨rounds - 1, by omega⟩
    exact accepts_items_one (key_ne_symbol hkey _) (accepts_mapEntry hkey hcolon (ih d (by omega)))
      hnext
  | moreEntries hkey hcolon _ hcomma _ ih ihmore =>
    intro d rounds hd hrounds
    simp only [List.length_append, List.length_cons] at hd hrounds
    obtain ⟨rounds, rfl⟩ : ∃ r, rounds = r + 1 := ⟨rounds - 1, by omega⟩
    exact accepts_items_cons (key_ne_symbol hkey _)
      (accepts_mapEntry hkey hcolon (ih d (by omega))) hcomma
      (ihmore d rounds (by omega) (by omega))
  | noParams hclose =>
    intro rounds _
    refine ⟨?_, fun hne => absurd rfl hne⟩
    rw [parameters]
    refine Leads.peek ?_
    rw [List.headD_nil, if_pos (Token.isSymbol_iff.mpr hclose)]
    exact accepts_pure _ _
  | oneParam ht hnext => exact accepted_oneParam ht hnext
  | moreParams ht hcomma _ ih => exact accepted_moreParams ht hcomma ih
  | code hleft _ hright _ ihparams ihbody => exact accepted_code hleft ihparams hright ihbody
  | @noStatements next hend =>
    intro d rounds _ hrounds
    obtain ⟨rounds, rfl⟩ : ∃ r, rounds = r + 1 := ⟨rounds - 1, by omega⟩
    rw [statements]
    refine Leads.peek ?_
    have hstop : (next.isSymbol .rightBrace || next.isEnd) = true := by
      rw [Bool.or_eq_true, Token.isSymbol_iff, Token.isEnd_iff]
      exact hend
    rw [List.headD_nil, if_pos hstop]
    exact accepts_pure _ _
  | moreStatements h _ ih ihmore => exact accepted_moreStatements h.opens ih ihmore
  | block hleft _ hright ih => exact accepted_block hleft ih hright
  | blockBranch h ih =>
    refine accepted_blockBranch ih ?_
    cases h with
    | block hleft _ _ => simp [opensBrace, Token.isSymbol, hleft]
  | singleBranch h hopen ih => exact accepted_singleBranch ih hopen (h.ne_nil rfl)
  | bare h hnext ih => exact accepted_bare ih (h.ne_nil rfl) hnext
  | ended h hmark ih => exact accepted_ended ih (h.ne_nil rfl) hmark
  | letVar hword hlabel hnext => exact accepted_letVar hword hlabel hnext
  | letInit hword hlabel hmark _ ih => exact accepted_letInit hword hlabel hmark ih
  | function hword hlabel _ ih => exact accepted_function hword hlabel ih
  | ifThen hword hleft _ hright _ hnext ihtest ihyes =>
    exact accepted_ifThen hword hleft ihtest hright ihyes hnext
  | ifElse hword hleft _ hright _ hother _ ihtest ihyes ihno =>
    exact accepted_ifElse hword hleft ihtest hright ihyes hother ihno
  | whileLoop hword hleft _ hright _ ihtest ihbody =>
    exact accepted_whileLoop hword hleft ihtest hright ihbody
  | forEach hword hleft hlabel hwithin _ hright _ ih ihbody =>
    exact accepted_forEach hword hleft hlabel hwithin ih hright ihbody
  | tryCatch hword _ hrescue hleft hlabel hright _ ihbody ihhandler =>
    exact accepted_tryCatch hword ihbody hrescue hleft hlabel hright ihhandler
  | throw hword _ ih => exact accepted_throw hword ih
  | ret hword hnext => exact accepted_ret hword hnext
  | retValue hword h ih => exact accepted_retValue hword ih h.opens
  | brk hword | cont hword =>
    intro d _
    rw [statementForm]
    refine Leads.peek ?_
    simp only [List.headD_cons, hword]
    exact Leads.bind_one (accepts_advance hword (by simp) _) (accepts_pure _ _)
  | blockForm h ih =>
    cases h with
    | block hleft h hright => exact accepted_blockForm hleft h.opens hright ih
  | exprForm h hblock hdeclaration ih => exact accepted_exprForm h.opens ih hblock hdeclaration

/-- In front of the tokens of a statement, the parser yields that statement and stands after it. -/
theorem parseNext_of_derives {s s' : TokenStream} {stmt : Stmt Span} (hpass : s.Passes ts s')
    (h : Derives (.statement stmt) ts s'.here) : s.parseNext = (.ok stmt, s') := by
  have hlength := congrArg List.length hpass.rest_eq
  simp only [rest, List.length_append, List.length_cons] at hlength
  have hdepth : ts.length + 1 < s.depthBound := by
    unfold depthBound remaining
    omega
  have hstatement : statement s.depthBound s = .ok stmt s' :=
    h.accepted s.depthBound hdepth hpass rfl
  rw [parseNext, hstatement]

/-- **The parser decides the grammar.**  It yields a statement and a new place in the stream if and
only if the tokens between the old and the new place derive exactly that statement, spans included,
in front of the token at the new place: none of them is skipped, read twice or put in another
order. -/
theorem parseNext_eq_ok_iff {s s' : TokenStream} {stmt : Stmt Span} (hs : s.Closed) :
    s.parseNext = (.ok stmt, s') ↔
      ∃ ts, s.Passes ts s' ∧ Derives (.statement stmt) ts s'.here := by
  constructor
  · exact derives_of_parseNext hs
  · rintro ⟨ts, hpass, hderives⟩
    exact parseNext_of_derives hpass hderives

/-- The tokens of `if (a) if (b) x; else y = z = w;`. -/
def danglingElse : TokenStream :=
  .ofTokens
    [⟨.keyword .ifWord, ⟨0, 2⟩⟩, ⟨.symbol .leftParen, ⟨3, 4⟩⟩, ⟨.identifier "a", ⟨4, 5⟩⟩,
      ⟨.symbol .rightParen, ⟨5, 6⟩⟩, ⟨.keyword .ifWord, ⟨7, 9⟩⟩, ⟨.symbol .leftParen, ⟨10, 11⟩⟩,
      ⟨.identifier "b", ⟨11, 12⟩⟩, ⟨.symbol .rightParen, ⟨12, 13⟩⟩, ⟨.identifier "x", ⟨14, 15⟩⟩,
      ⟨.symbol .semicolon, ⟨15, 16⟩⟩, ⟨.keyword .elseWord, ⟨17, 21⟩⟩, ⟨.identifier "y", ⟨22, 23⟩⟩,
      ⟨.symbol .assign, ⟨24, 25⟩⟩, ⟨.identifier "z", ⟨26, 27⟩⟩, ⟨.symbol .assign, ⟨28, 29⟩⟩,
      ⟨.identifier "w", ⟨30, 31⟩⟩, ⟨.symbol .semicolon, ⟨31, 32⟩⟩] (.endAt 32)

/-- The `else` belongs to the inner `if`, and the assignments group to the right. -/
theorem parseNext_danglingElse :
    danglingElse.Closed ∧ ∃ stmt s', danglingElse.parseNext = (.ok stmt, s') ∧
      stmt.erase = .ifElse () (.var () "a")
        [.ifElse () (.var () "b") [.expr () (.var () "x")]
          (some [.expr () (.assign () (.var () "y") (.assign () (.var () "z") (.var () "w")))])]
        none ∧
      ∃ ts, danglingElse.Passes ts s' ∧ Derives (.statement stmt) ts s'.here := by
  have hclosed : danglingElse.Closed := ofTokens_closed _ 32
  exact ⟨hclosed, _, _, rfl, rfl, (parseNext_eq_ok_iff hclosed).mp rfl⟩

end Script.Grammar
