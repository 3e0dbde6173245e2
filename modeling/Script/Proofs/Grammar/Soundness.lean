import Script.Proofs.Grammar.Steps

/-!
# What the parser accepts is in the grammar

Whenever the parser yields a tree, the tokens that it moved past derive that tree.  The parsers are
written in terms of the parsers for the parts, so each has a lemma that derives its phrase from
derivations of the parts; the bounded recursion is closed by one induction on the depth at the end.

Where a phrase ends is part of its derivation, so each lemma also says what the parser has seen of
the token at which it stopped.
-/

namespace Script.Grammar

open Script.Parser Outcome TokenStream

variable {α : Type}

/-- A parser whose every result, with the tokens that it passed and the token after them, is as `D`
says. -/
def SoundBefore (p : Parser α) (D : α → List Token → Token → Prop) : Prop :=
  ∀ ⦃s : TokenStream⦄ ⦃a : α⦄ ⦃s' : TokenStream⦄, s.Closed → p s = .ok a s' →
    ∃ ts, s.Passes ts s' ∧ D a ts s'.here

/-- A parser whose every result derives from the tokens that it passed. -/
def Sound (p : Parser α) (phrase : α → Phrase) : Prop :=
  SoundBefore p fun a ts next => Derives (phrase a) ts next

/-- A parser for the operations of a level, which takes in every operator of the level. -/
def SoundAt (level : Nat) (p : Parser (Expr Span)) : Prop :=
  SoundBefore p fun e ts next => Derives (.operation level e) ts next ∧ NoOperator level next

/-! ### Tokens that a step moves past -/

section Steps

variable {s s' : TokenStream} {t : Token} {l : Lexeme}

/-- Moving on from a token that says something passes that token. -/
theorem passes_of_lexeme (hs : s.Closed) (h : s.here.lexeme = l) (hl : l ≠ .endOfInput) :
    s.Passes [s.here] s.advance :=
  passes_advance hs (Token.not_isEnd_of_lexeme h hl)

theorem expect_passes {mark : Symbol} {cause : ParseError.Cause} (hs : s.Closed)
    (h : expect mark cause s = .ok t s') :
    s.here = t ∧ s.here.lexeme = .symbol mark ∧ s.Passes [s.here] s' := by
  obtain ⟨hmark, hhere, rfl⟩ := expect_eq_ok_iff.mp h
  exact ⟨hhere, hmark, passes_of_lexeme hs hmark (by simp)⟩

theorem expectKeyword_passes {word : Keyword} (hs : s.Closed)
    (h : expectKeyword word s = .ok t s') :
    s.here = t ∧ s.here.lexeme = .keyword word ∧ s.Passes [s.here] s' := by
  obtain ⟨hword, hhere, rfl⟩ := expectKeyword_eq_ok_iff.mp h
  exact ⟨hhere, hword, passes_of_lexeme hs hword (by simp)⟩

theorem identifier_passes {cause : ParseError.Cause} {p : String × Span} (hs : s.Closed)
    (h : identifier cause s = .ok p s') :
    s.here.lexeme = .identifier p.1 ∧ s.here.span = p.2 ∧ s.Passes [s.here] s' := by
  obtain ⟨hname, hspan, rfl⟩ := identifier_eq_ok_iff.mp h
  exact ⟨hname, hspan, passes_of_lexeme hs hname (by simp)⟩

/-- An optional symbol was there and was passed, or it was not and nothing was. -/
theorem accept_cases {mark : Symbol} {b : Bool} (hs : s.Closed) (h : accept mark s = .ok b s') :
    (b = true ∧ s.here.lexeme = .symbol mark ∧ s.Passes [s.here] s') ∨
      (b = false ∧ s = s' ∧ s.here.lexeme ≠ .symbol mark) := by
  rw [accept_apply] at h
  split at h
  · next hmark =>
    injection h with hb hs'
    refine .inl ⟨hb.symm, hmark, ?_⟩
    rw [← hs']
    exact passes_of_lexeme hs hmark (by simp)
  · next hmark =>
    injection h with hb hs'
    exact .inr ⟨hb.symm, hs', hmark⟩

theorem acceptKeyword_cases {word : Keyword} {b : Bool} (hs : s.Closed)
    (h : acceptKeyword word s = .ok b s') :
    (b = true ∧ s.here.lexeme = .keyword word ∧ s.Passes [s.here] s') ∨
      (b = false ∧ s = s' ∧ s.here.lexeme ≠ .keyword word) := by
  rw [acceptKeyword_apply] at h
  split at h
  · next hword =>
    injection h with hb hs'
    refine .inl ⟨hb.symm, hword, ?_⟩
    rw [← hs']
    exact passes_of_lexeme hs hword (by simp)
  · next hword =>
    injection h with hb hs'
    exact .inr ⟨hb.symm, hs', hword⟩

end Steps

/-! ### Expressions -/

section Expressions

variable {operand expr : Parser (Expr Span)} {body : Parser (List (Stmt Span))}

/-- **The loop over operators of a level.**  What has been read before stands as the left operand
of whatever follows, so the invariant is a derivation of the whole left part. -/
theorem binaryRest_sound {k : Nat} {table : List (Symbol × BinaryOp)}
    (htable : binaryLevels[k]? = some table)
    (hoperand : SoundAt (k + 1) operand) :
    ∀ (rounds : Nat) {left e : Expr Span} {before : List Token} {s s' : TokenStream},
      s.Closed → Derives (.operation k left) before s.here →
      binaryRest table operand rounds left s = .ok e s' →
      ∃ ts, s.Passes ts s' ∧ Derives (.operation k e) (before ++ ts) s'.here ∧
        NoOperator k s'.here := by
  intro rounds
  induction rounds with
  | zero =>
    intro left e before s s' _ _ h
    exact absurd h fail_ne_ok
  | succ rounds ih =>
    intro left e before s s' hs hleft h
    rw [binaryRest, peek_bind] at h
    cases hop : operator? table s.here with
    | none =>
      rw [hop] at h
      obtain ⟨rfl, rfl⟩ := pure_eq_ok_iff.mp h
      exact ⟨[], .refl s, by simpa using hleft, (operator?_eq_none_iff htable).mp hop⟩
    | some op =>
      simp only [hop, advance_bind] at h
      obtain ⟨rfl, hmark⟩ := (operator?_eq_some_iff htable).mp hop
      have hpass := passes_of_lexeme hs hmark (by simp)
      obtain ⟨right, s₂, hright, h⟩ := bind_eq_ok_iff.mp h
      obtain ⟨us, hus, hderives, hstop⟩ := hoperand (hpass.closed hs) hright
      -- the left part grows by the operator and its right operand
      have hboth := Derives.binary hleft hmark hderives hstop
      obtain ⟨vs, hvs, hwhole⟩ := ih (hus.closed (hpass.closed hs)) hboth h
      refine ⟨s.here :: us ++ vs, (hpass.trans hus).trans hvs, ?_⟩
      simpa using hwhole

theorem binaryLevel_sound {k : Nat} {table : List (Symbol × BinaryOp)} (rounds : Nat)
    (htable : binaryLevels[k]? = some table) (hk : k < unaryLevel)
    (hoperand : SoundAt (k + 1) operand) : SoundAt k (binaryLevel rounds table operand) := by
  intro s e s' hs h
  obtain ⟨left, s₁, hleft, h⟩ := bind_eq_ok_iff.mp h
  obtain ⟨ts, hts, hderives, hstop⟩ := hoperand hs hleft
  obtain ⟨us, hus, hwhole⟩ := binaryRest_sound htable hoperand rounds (hts.closed hs)
    (.tighter hk hderives hstop) h
  exact ⟨ts ++ us, hts.trans hus, hwhole⟩

/-- A parser for what is applied, which takes in every application. -/
def SoundApplied (p : Parser (Expr Span)) : Prop :=
  SoundBefore p fun e ts next => Derives (.applied e) ts next ∧ NoApplication next

theorem unary_sound (hoperand : SoundApplied operand) (rounds : Nat) :
    SoundAt unaryLevel (unary operand rounds) := by
  induction rounds with
  | zero =>
    intro s e s' _ h
    exact absurd h fail_ne_ok
  | succ rounds ih =>
    intro s e s' hs h
    rw [unary, peek_bind] at h
    cases hop : unaryOperator? s.here with
    | none =>
      rw [hop] at h
      obtain ⟨ts, hts, hderives, hstop⟩ := hoperand hs h
      exact ⟨ts, hts, .noUnary hderives hstop, noOperator_unaryLevel _⟩
    | some op =>
      simp only [hop, advance_bind] at h
      have hmark := unaryOperator?_eq_some_iff.mp hop
      have hpass := passes_of_lexeme hs hmark (by simp)
      obtain ⟨right, s₂, hright, h⟩ := bind_eq_ok_iff.mp h
      obtain ⟨rfl, rfl⟩ := pure_eq_ok_iff.mp h
      obtain ⟨ts, hts, hderives, hstop⟩ := ih (hpass.closed hs) hright
      exact ⟨s.here :: ts, hpass.trans hts, .unary hmark hderives, hstop⟩

/-- Items up to a closing symbol.  `I` is what an item derives, and `L` what a list of them does. -/
theorem items_sound {item : Parser α} {I : α → List Token → Token → Prop}
    {L : List α → List Token → Token → Prop} {close : Symbol} (hitem : SoundBefore item I)
    (hnone : ∀ next, next.lexeme = .symbol close → L [] [] next)
    (hone : ∀ a ts next, I a ts next → next.lexeme ≠ .symbol .comma → L [a] ts next)
    (hmore : ∀ a as ts us comma next, I a ts comma → comma.lexeme = .symbol .comma →
      L as us next → L (a :: as) (ts ++ comma :: us) next) (rounds : Nat) :
    SoundBefore (items close item rounds) L := by
  induction rounds with
  | zero =>
    intro s as s' _ h
    exact absurd h fail_ne_ok
  | succ rounds ih =>
    intro s as s' hs h
    rw [items, peek_bind] at h
    split at h
    · next hclose =>
      obtain ⟨rfl, rfl⟩ := pure_eq_ok_iff.mp h
      exact ⟨[], .refl s, hnone _ (Token.isSymbol_iff.mp hclose)⟩
    · obtain ⟨first, s₁, hfirst, h⟩ := bind_eq_ok_iff.mp h
      obtain ⟨ts, hts, hderives⟩ := hitem hs hfirst
      obtain ⟨more, s₂, haccept, h⟩ := bind_eq_ok_iff.mp h
      -- what follows a comma may be the closing symbol at once
      rcases accept_cases (hts.closed hs) haccept with ⟨rfl, hcomma, hpass⟩ | ⟨rfl, rfl, hnext⟩
      · obtain ⟨others, s₃, hothers, h⟩ := bind_eq_ok_iff.mp h
        obtain ⟨rfl, rfl⟩ := pure_eq_ok_iff.mp h
        obtain ⟨us, hus, hlist⟩ := ih (hpass.closed (hts.closed hs)) hothers
        exact ⟨ts ++ ([s₁.here] ++ us), hts.trans (hpass.trans hus),
          hmore _ _ _ _ _ _ hderives hcomma hlist⟩
      · obtain ⟨rfl, rfl⟩ := pure_eq_ok_iff.mp h
        exact ⟨ts, hts, hone _ _ _ hderives hnext⟩

theorem exprItems_sound (hexpr : Sound expr .expression) (close : Symbol) (rounds : Nat) :
    Sound (items close expr rounds) (.items close) :=
  items_sound hexpr (fun _ => .noItems) (fun _ _ _ => .oneItem)
    (fun _ _ _ _ _ _ hitem hcomma hmore => .moreItems hitem hcomma hmore) rounds

theorem mapEntry_sound (hexpr : Sound expr .expression) :
    SoundBefore (mapEntry expr) fun entry ts next => ∃ key colon us, ts = key :: colon :: us ∧
      key.key? = some entry.1 ∧ colon.lexeme = .symbol .colon ∧
        Derives (.expression entry.2) us next := by
  intro s entry s' hs h
  rw [mapEntry, advance_bind] at h
  cases hkey : s.here.key? with
  | none =>
    rw [hkey] at h
    exact absurd h failAt_ne_ok
  | some name =>
    simp only [hkey] at h
    have hkeyEnd : s.here.isEnd = false := by
      cases hlex : s.here.lexeme <;> simp_all [Token.key?, Token.isEnd]
    have hpass := passes_advance hs hkeyEnd
    obtain ⟨colon, s₁, hexpect, h⟩ := bind_eq_ok_iff.mp h
    obtain ⟨rfl, hcolon, hpass₁⟩ := expect_passes (hpass.closed hs) hexpect
    obtain ⟨value, s₂, hvalue, h⟩ := bind_eq_ok_iff.mp h
    obtain ⟨us, hus, hderives⟩ := hexpr (hpass₁.closed (hpass.closed hs)) hvalue
    obtain ⟨rfl, rfl⟩ := pure_eq_ok_iff.mp h
    exact ⟨_, hpass.trans (hpass₁.trans hus), s.here, s.advance.here, us, rfl, hkey, hcolon,
      hderives⟩

theorem mapEntries_sound (hexpr : Sound expr .expression) (rounds : Nat) :
    Sound (items .rightBrace (mapEntry expr) rounds) .entries := by
  refine items_sound (mapEntry_sound hexpr) (fun _ => .noEntries) ?_ ?_ rounds
  · rintro ⟨name, e⟩ ts next ⟨key, colon, us, rfl, hkey, hcolon, hderives⟩ hnext
    exact .oneEntry hkey hcolon hderives hnext
  · rintro ⟨name, e⟩ es ts vs comma next ⟨key, colon, us, rfl, hkey, hcolon, hderives⟩ hcomma
      hmore
    exact .moreEntries hkey hcolon hderives hcomma hmore

theorem parameterNames_sound (rounds : Nat) :
    SoundBefore (parameterNames rounds) fun names ts next =>
      names ≠ [] ∧ Derives (.params names) ts next := by
  induction rounds with
  | zero =>
    intro s names s' _ h
    exact absurd h fail_ne_ok
  | succ rounds ih =>
    intro s names s' hs h
    obtain ⟨⟨name, span⟩, s₁, hname, h⟩ := bind_eq_ok_iff.mp h
    obtain ⟨ht, -, hpass⟩ := identifier_passes hs hname
    obtain ⟨more, s₂, haccept, h⟩ := bind_eq_ok_iff.mp h
    rcases accept_cases (hpass.closed hs) haccept with ⟨rfl, hcomma, hpass₁⟩ | ⟨rfl, rfl, hnext⟩
    · obtain ⟨others, s₃, hothers, h⟩ := bind_eq_ok_iff.mp h
      obtain ⟨rfl, rfl⟩ := pure_eq_ok_iff.mp h
      obtain ⟨ts, hts, hne, hderives⟩ := ih (hpass₁.closed (hpass.closed hs)) hothers
      obtain ⟨next, names, rfl⟩ := List.exists_cons_of_ne_nil hne
      exact ⟨_, hpass.trans (hpass₁.trans hts), by simp, .moreParams ht hcomma hderives⟩
    · obtain ⟨rfl, rfl⟩ := pure_eq_ok_iff.mp h
      exact ⟨_, hpass, by simp, .oneParam ht hnext⟩

theorem parameters_sound (rounds : Nat) : Sound (parameters rounds) .params := by
  intro s names s' hs h
  rw [parameters, peek_bind] at h
  split at h
  · next hclose =>
    obtain ⟨rfl, rfl⟩ := pure_eq_ok_iff.mp h
    exact ⟨[], .refl s, .noParams (Token.isSymbol_iff.mp hclose)⟩
  · obtain ⟨ts, hts, -, hderives⟩ := parameterNames_sound rounds hs h
    exact ⟨ts, hts, hderives⟩

theorem functionRest_sound (hbody : Sound body .block) (rounds : Nat) :
    Sound (functionRest rounds body) fun code => .code code.1 code.2 := by
  intro s code s' hs h
  obtain ⟨left, s₁, hexpect, h⟩ := bind_eq_ok_iff.mp h
  obtain ⟨rfl, hleft, hpass⟩ := expect_passes hs hexpect
  have hs₁ := hpass.closed hs
  obtain ⟨params, s₂, hparams, h⟩ := bind_eq_ok_iff.mp h
  obtain ⟨ts, hts, hderives⟩ := parameters_sound rounds hs₁ hparams
  obtain ⟨right, s₃, hexpect₁, h⟩ := bind_eq_ok_iff.mp h
  obtain ⟨rfl, hright, hpass₁⟩ := expect_passes (hts.closed hs₁) hexpect₁
  obtain ⟨statements, s₄, hstatements, h⟩ := bind_eq_ok_iff.mp h
  obtain ⟨us, hus, hblock⟩ := hbody (hpass₁.closed (hts.closed hs₁)) hstatements
  obtain ⟨rfl, rfl⟩ := pure_eq_ok_iff.mp h
  exact ⟨_, hpass.trans (hts.trans (hpass₁.trans hus)), .code hleft hderives hright hblock⟩

/-- A function literal, once its first word has been read. -/
theorem lambda_sound (hbody : Sound body .block) (rounds : Nat) {s s' : TokenStream}
    {e : Expr Span} (hs : s.Closed) (hword : s.here.lexeme = .keyword .function)
    (h : primary rounds expr body s = .ok e s') :
    ∃ ts, s.Passes ts s' ∧ Derives (.primary e) ts s'.here := by
  simp only [primary, peek_bind, hword, advance_bind] at h
  have hpass := passes_of_lexeme hs hword (by simp)
  have hs₁ := hpass.closed hs
  obtain ⟨name, s₁, hname, h⟩ := bind_eq_ok_iff.mp h
  obtain ⟨⟨params, statements⟩, s₂, hrest, h⟩ := bind_eq_ok_iff.mp h
  obtain ⟨span, s₃, hspan, h⟩ := bind_eq_ok_iff.mp h
  obtain ⟨rfl, rfl⟩ := pure_eq_ok_iff.mp h
  -- the name is optional here, and the span is taken only after the body
  rw [literalName, peek_bind] at hname
  split at hname
  · obtain ⟨⟨label, place⟩, s₄, hlabel, hname⟩ := bind_eq_ok_iff.mp hname
    obtain ⟨rfl, rfl⟩ := pure_eq_ok_iff.mp hname
    obtain ⟨ht, -, hpass₁⟩ := identifier_passes hs₁ hlabel
    obtain ⟨ts, hts, hcode⟩ := functionRest_sound hbody rounds (hpass₁.closed hs₁) hrest
    have hall : s.Passes (s.here :: s.advance.here :: ts) s₂ := hpass.trans (hpass₁.trans hts)
    rw [spanFrom_of_passes hall] at hspan
    injection hspan with hcover hsame
    subst hcover hsame
    exact ⟨_, hall, .namedLambda hword ht hcode⟩
  · obtain ⟨rfl, rfl⟩ := pure_eq_ok_iff.mp hname
    obtain ⟨ts, hts, hcode⟩ := functionRest_sound hbody rounds hs₁ hrest
    have hall : s.Passes (s.here :: ts) s₂ := hpass.trans hts
    rw [spanFrom_of_passes hall] at hspan
    injection hspan with hcover hsame
    subst hcover hsame
    exact ⟨_, hall, .lambda hword hcode⟩

/-- What stands between two marks: the first one has been seen, the last one is required. -/
theorem enclosed_sound {p : Parser α} {phrase : α → Phrase} (hp : Sound p phrase)
    {close : Symbol} {cause : ParseError.Cause} {a : α} {right : Token} {l : Lexeme}
    {s s₁ s' : TokenStream} (hs : s.Closed) (hhere : s.here.lexeme = l) (hl : l ≠ .endOfInput)
    (hinner : p s.advance = .ok a s₁) (hclose : expect close cause s₁ = .ok right s') :
    ∃ ts, right.lexeme = .symbol close ∧ Derives (phrase a) ts right ∧
      s.Passes (s.here :: (ts ++ [right])) s' := by
  have hpass := passes_of_lexeme hs hhere hl
  obtain ⟨ts, hts, hderives⟩ := hp (hpass.closed hs) hinner
  obtain ⟨rfl, hright, hpass₁⟩ := expect_passes (hts.closed (hpass.closed hs)) hclose
  exact ⟨ts, hright, hderives, hpass.trans (hts.trans hpass₁)⟩

theorem primary_sound (hexpr : Sound expr .expression) (hbody : Sound body .block)
    (rounds : Nat) : Sound (primary rounds expr body) .primary := by
  intro s e s' hs h
  by_cases hfunction : s.here.lexeme = .keyword .function
  · exact lambda_sound hbody rounds hs hfunction h
  rw [primary, peek_bind] at h
  cases hlex : s.here.lexeme with
  | number numeral =>
    simp only [hlex, advance_bind] at h
    cases hvalue : Numeral.read? numeral with
    | none =>
      rw [hvalue] at h
      exact absurd h failAt_ne_ok
    | some value =>
      rw [hvalue] at h
      obtain ⟨rfl, rfl⟩ := pure_eq_ok_iff.mp h
      exact ⟨[s.here], passes_of_lexeme hs hlex (by simp), .number hlex hvalue⟩
  | quoted content =>
    simp only [hlex, advance_bind] at h
    obtain ⟨rfl, rfl⟩ := pure_eq_ok_iff.mp h
    exact ⟨[s.here], passes_of_lexeme hs hlex (by simp), .text hlex⟩
  | identifier name =>
    simp only [hlex, advance_bind] at h
    obtain ⟨rfl, rfl⟩ := pure_eq_ok_iff.mp h
    exact ⟨[s.here], passes_of_lexeme hs hlex (by simp), .var hlex⟩
  | endOfInput =>
    rw [hlex] at h
    exact absurd h fail_ne_ok
  | keyword word =>
    cases word
    case function => exact absurd hlex hfunction
    all_goals simp only [hlex, advance_bind] at h
    case trueWord =>
      obtain ⟨rfl, rfl⟩ := pure_eq_ok_iff.mp h
      exact ⟨[s.here], passes_of_lexeme hs hlex (by simp), .trueWord hlex⟩
    case falseWord =>
      obtain ⟨rfl, rfl⟩ := pure_eq_ok_iff.mp h
      exact ⟨[s.here], passes_of_lexeme hs hlex (by simp), .falseWord hlex⟩
    case undefined =>
      obtain ⟨rfl, rfl⟩ := pure_eq_ok_iff.mp h
      exact ⟨[s.here], passes_of_lexeme hs hlex (by simp), .undefined hlex⟩
    all_goals exact absurd h fail_ne_ok
  | symbol mark =>
    cases mark
    all_goals simp only [hlex, advance_bind] at h
    case leftParen =>
      obtain ⟨inner, s₁, hinner, h⟩ := bind_eq_ok_iff.mp h
      obtain ⟨right, s₂, hclose, h⟩ := bind_eq_ok_iff.mp h
      obtain ⟨rfl, rfl⟩ := pure_eq_ok_iff.mp h
      obtain ⟨ts, hright, hderives, hall⟩ :=
        enclosed_sound hexpr hs hlex (by simp) hinner hclose
      exact ⟨_, hall, .parens hlex hderives hright⟩
    case leftBracket =>
      obtain ⟨elements, s₁, hinner, h⟩ := bind_eq_ok_iff.mp h
      obtain ⟨right, s₂, hclose, h⟩ := bind_eq_ok_iff.mp h
      obtain ⟨rfl, rfl⟩ := pure_eq_ok_iff.mp h
      obtain ⟨ts, hright, hderives, hall⟩ :=
        enclosed_sound (exprItems_sound hexpr _ rounds) hs hlex (by simp) hinner hclose
      exact ⟨_, hall, .array hlex hderives hright⟩
    case leftBrace =>
      obtain ⟨entries, s₁, hinner, h⟩ := bind_eq_ok_iff.mp h
      obtain ⟨right, s₂, hclose, h⟩ := bind_eq_ok_iff.mp h
      obtain ⟨rfl, rfl⟩ := pure_eq_ok_iff.mp h
      obtain ⟨ts, hright, hderives, hall⟩ :=
        enclosed_sound (mapEntries_sound hexpr rounds) hs hlex (by simp) hinner hclose
      exact ⟨_, hall, .map hlex hderives hright⟩
    all_goals exact absurd h fail_ne_ok

/-- The loop over what is applied to an expression, with the same invariant as the loop over the
operators of a level. -/
theorem postfixRest_sound (hexpr : Sound expr .expression) :
    ∀ (rounds : Nat) {left e : Expr Span} {before : List Token} {s s' : TokenStream},
      s.Closed → Derives (.applied left) before s.here →
      postfixRest expr rounds left s = .ok e s' →
      ∃ ts, s.Passes ts s' ∧ Derives (.applied e) (before ++ ts) s'.here ∧
        NoApplication s'.here := by
  intro rounds
  induction rounds with
  | zero =>
    intro left e before s s' _ _ h
    exact absurd h fail_ne_ok
  | succ rounds ih =>
    intro left e before s s' hs hleft h
    rw [postfixRest, peek_bind] at h
    cases hlex : s.here.lexeme with
    | symbol mark =>
      cases mark
      all_goals simp only [hlex, advance_bind] at h
      case leftParen =>
        obtain ⟨args, s₁, hargs, h⟩ := bind_eq_ok_iff.mp h
        obtain ⟨right, s₂, hclose, h⟩ := bind_eq_ok_iff.mp h
        obtain ⟨ts, hright, hderives, hall⟩ :=
          enclosed_sound (exprItems_sound hexpr _ rounds) hs hlex (by simp) hargs hclose
        obtain ⟨us, hus, hwhole⟩ := ih (hall.closed hs) (.call hleft hlex hderives hright) h
        exact ⟨_, hall.trans hus, by simpa using hwhole⟩
      case leftBracket =>
        obtain ⟨key, s₁, hkey, h⟩ := bind_eq_ok_iff.mp h
        obtain ⟨right, s₂, hclose, h⟩ := bind_eq_ok_iff.mp h
        obtain ⟨ts, hright, hderives, hall⟩ :=
          enclosed_sound hexpr hs hlex (by simp) hkey hclose
        obtain ⟨us, hus, hwhole⟩ := ih (hall.closed hs) (.index hleft hlex hderives hright) h
        exact ⟨_, hall.trans hus, by simpa using hwhole⟩
      case dot =>
        have hpass := passes_of_lexeme hs hlex (by simp)
        obtain ⟨⟨name, span⟩, s₁, hname, h⟩ := bind_eq_ok_iff.mp h
        obtain ⟨hmember, rfl, hpass₁⟩ := identifier_passes (hpass.closed hs) hname
        have hall := hpass.trans hpass₁
        obtain ⟨us, hus, hwhole⟩ := ih (hall.closed hs) (.field hleft hlex hmember) h
        exact ⟨_, hall.trans hus, by simpa using hwhole⟩
      all_goals
        obtain ⟨rfl, rfl⟩ := pure_eq_ok_iff.mp h
        exact ⟨[], .refl s, by simpa using hleft, by simp [NoApplication, hlex]⟩
    | _ =>
      simp only [hlex] at h
      obtain ⟨rfl, rfl⟩ := pure_eq_ok_iff.mp h
      exact ⟨[], .refl s, by simpa using hleft, by simp [NoApplication, hlex]⟩

theorem applied_sound (hexpr : Sound expr .expression) (hbody : Sound body .block)
    (rounds : Nat) : SoundApplied (applied rounds expr body) := by
  intro s e s' hs h
  obtain ⟨head, s₁, hhead, h⟩ := bind_eq_ok_iff.mp h
  obtain ⟨ts, hts, hderives⟩ := primary_sound hexpr hbody rounds hs hhead
  obtain ⟨us, hus, hwhole⟩ :=
    postfixRest_sound hexpr rounds (hts.closed hs) (.notApplied hderives) h
  exact ⟨ts ++ us, hts.trans hus, hwhole⟩

/-- The levels of binding strength, from the tightest to the loosest. -/
theorem operation_sound (hexpr : Sound expr .expression) (hbody : Sound body .block)
    (rounds : Nat) : SoundAt 0 (operation rounds expr body) := by
  have h₆ := unary_sound (applied_sound hexpr hbody rounds) rounds
  have h₅ := binaryLevel_sound (k := 5) rounds rfl (by decide) h₆
  have h₄ := binaryLevel_sound (k := 4) rounds rfl (by decide) h₅
  have h₃ := binaryLevel_sound (k := 3) rounds rfl (by decide) h₄
  have h₂ := binaryLevel_sound (k := 2) rounds rfl (by decide) h₃
  have h₁ := binaryLevel_sound (k := 1) rounds rfl (by decide) h₂
  exact binaryLevel_sound (k := 0) rounds rfl (by decide) h₁

theorem assignment_sound (hexpr : Sound expr .expression) (hbody : Sound body .block)
    (rounds : Nat) : Sound (assignment rounds expr body) .expression := by
  intro s e s' hs h
  obtain ⟨left, s₁, hleft, h⟩ := bind_eq_ok_iff.mp h
  obtain ⟨ts, hts, hderives, hstop⟩ := operation_sound hexpr hbody rounds hs hleft
  rw [peek_bind] at h
  split at h
  · next hmark =>
    rw [Token.isSymbol_iff] at hmark
    rw [advance_bind] at h
    have hpass := passes_of_lexeme (hts.closed hs) hmark (by simp)
    obtain ⟨value, s₂, hvalue, h⟩ := bind_eq_ok_iff.mp h
    obtain ⟨us, hus, hright⟩ := hexpr (hpass.closed (hts.closed hs)) hvalue
    cases htarget : left.toTarget? with
    | none =>
      rw [htarget] at h
      exact absurd h failAt_ne_ok
    | some target =>
      rw [htarget] at h
      obtain ⟨rfl, rfl⟩ := pure_eq_ok_iff.mp h
      exact ⟨_, hts.trans (hpass.trans hus), .assign hderives htarget hmark hright⟩
  · next hmark =>
    rw [Token.isSymbol_iff] at hmark
    obtain ⟨rfl, rfl⟩ := pure_eq_ok_iff.mp h
    exact ⟨ts, hts, .noAssign hderives hstop hmark⟩

end Expressions

/-! ### Statements -/

section Statements

variable {expr : Parser (Expr Span)} {stmt : Parser (Stmt Span)}

theorem statements_sound (hstmt : Sound stmt .statement) (rounds : Nat) :
    Sound (statements stmt rounds) .statements := by
  induction rounds with
  | zero =>
    intro s body s' _ h
    exact absurd h fail_ne_ok
  | succ rounds ih =>
    intro s body s' hs h
    rw [statements, peek_bind] at h
    split at h
    · next hend =>
      rw [Bool.or_eq_true, Token.isSymbol_iff, Token.isEnd_iff] at hend
      obtain ⟨rfl, rfl⟩ := pure_eq_ok_iff.mp h
      exact ⟨[], .refl s, .noStatements hend⟩
    · obtain ⟨first, s₁, hfirst, h⟩ := bind_eq_ok_iff.mp h
      obtain ⟨ts, hts, hderives⟩ := hstmt hs hfirst
      obtain ⟨others, s₂, hothers, h⟩ := bind_eq_ok_iff.mp h
      obtain ⟨us, hus, hmore⟩ := ih (hts.closed hs) hothers
      obtain ⟨rfl, rfl⟩ := pure_eq_ok_iff.mp h
      rw [hus.here_eq_headD] at hderives
      exact ⟨ts ++ us, hts.trans hus, .moreStatements hderives hmore⟩

theorem block_sound (hstmt : Sound stmt .statement) (rounds : Nat) :
    Sound (block rounds stmt) .block := by
  intro s body s' hs h
  obtain ⟨left, s₁, hopen, h⟩ := bind_eq_ok_iff.mp h
  obtain ⟨hleft, rfl, rfl⟩ := expect_eq_ok_iff.mp hopen
  obtain ⟨inner, s₂, hinner, h⟩ := bind_eq_ok_iff.mp h
  obtain ⟨right, s₃, hclose, h⟩ := bind_eq_ok_iff.mp h
  obtain ⟨rfl, rfl⟩ := pure_eq_ok_iff.mp h
  obtain ⟨ts, hright, hderives, hall⟩ :=
    enclosed_sound (statements_sound hstmt rounds) hs hleft (by simp) hinner hclose
  exact ⟨_, hall, .block hleft hderives hright⟩

theorem branch_sound (hstmt : Sound stmt .statement) (rounds : Nat) :
    Sound (branch rounds stmt) .branch := by
  intro s body s' hs h
  rw [branch, peek_bind] at h
  split at h
  · obtain ⟨ts, hts, hderives⟩ := block_sound hstmt rounds hs h
    exact ⟨ts, hts, .blockBranch hderives⟩
  · next hbrace =>
    obtain ⟨single, s₁, hsingle, h⟩ := bind_eq_ok_iff.mp h
    obtain ⟨rfl, rfl⟩ := pure_eq_ok_iff.mp h
    obtain ⟨ts, hts, hderives⟩ := hstmt hs hsingle
    -- the parser has looked at the first token, and a statement has one
    obtain ⟨first, more, rfl⟩ := List.exists_cons_of_ne_nil (hderives.ne_nil rfl)
    have hopen : opensBrace (first :: more) = false := by
      rw [← hts.here_eq]
      simpa [opensBrace] using hbrace
    exact ⟨_, hts, .singleBranch hderives hopen⟩

/-- An expression in parentheses, after the word that requires it. -/
theorem condition_sound (hexpr : Sound expr .expression) :
    SoundBefore (condition expr) fun test ts _ => ∃ left us right, ts = left :: (us ++ [right]) ∧
      left.lexeme = .symbol .leftParen ∧ Derives (.expression test) us right ∧
        right.lexeme = .symbol .rightParen := by
  intro s test s' hs h
  obtain ⟨left, s₁, hopen, h⟩ := bind_eq_ok_iff.mp h
  obtain ⟨hleft, rfl, rfl⟩ := expect_eq_ok_iff.mp hopen
  obtain ⟨value, s₂, hvalue, h⟩ := bind_eq_ok_iff.mp h
  obtain ⟨right, s₃, hclose, h⟩ := bind_eq_ok_iff.mp h
  obtain ⟨rfl, rfl⟩ := pure_eq_ok_iff.mp h
  obtain ⟨ts, hright, hderives, hall⟩ := enclosed_sound hexpr hs hleft (by simp) hvalue hclose
  exact ⟨_, hall, s.here, ts, right, rfl, hleft, hderives, hright⟩

theorem letStatement_sound (hexpr : Sound expr .expression) : Sound (letStatement expr) .form := by
  intro s build s' hs h
  obtain ⟨word, s₁, hword, h⟩ := bind_eq_ok_iff.mp h
  obtain ⟨rfl, hlet, hpass⟩ := expectKeyword_passes hs hword
  obtain ⟨⟨name, span⟩, s₂, hname, h⟩ := bind_eq_ok_iff.mp h
  obtain ⟨hlabel, -, hpass₁⟩ := identifier_passes (hpass.closed hs) hname
  have hboth := hpass.trans hpass₁
  obtain ⟨given, s₃, haccept, h⟩ := bind_eq_ok_iff.mp h
  rcases accept_cases (hboth.closed hs) haccept with ⟨rfl, hmark, hpass₂⟩ | ⟨rfl, rfl, hnext⟩
  · obtain ⟨value, s₄, hvalue, h⟩ := bind_eq_ok_iff.mp h
    obtain ⟨rfl, rfl⟩ := pure_eq_ok_iff.mp h
    have hall := hboth.trans hpass₂
    obtain ⟨ts, hts, hderives⟩ := hexpr (hall.closed hs) hvalue
    exact ⟨_, hall.trans hts, .letInit hlet hlabel hmark hderives⟩
  · obtain ⟨rfl, rfl⟩ := pure_eq_ok_iff.mp h
    exact ⟨_, hboth, .letVar hlet hlabel hnext⟩

theorem functionStatement_sound (hstmt : Sound stmt .statement) (rounds : Nat) :
    Sound (functionStatement rounds stmt) .form := by
  intro s build s' hs h
  obtain ⟨word, s₁, hword, h⟩ := bind_eq_ok_iff.mp h
  obtain ⟨rfl, hfunction, hpass⟩ := expectKeyword_passes hs hword
  obtain ⟨⟨name, span⟩, s₂, hname, h⟩ := bind_eq_ok_iff.mp h
  obtain ⟨hlabel, -, hpass₁⟩ := identifier_passes (hpass.closed hs) hname
  have hboth := hpass.trans hpass₁
  obtain ⟨⟨params, body⟩, s₃, hcode, h⟩ := bind_eq_ok_iff.mp h
  obtain ⟨rfl, rfl⟩ := pure_eq_ok_iff.mp h
  obtain ⟨ts, hts, hderives⟩ :=
    functionRest_sound (block_sound hstmt rounds) rounds (hboth.closed hs) hcode
  exact ⟨_, hboth.trans hts, .function hfunction hlabel hderives⟩

/-- The word, the condition and the branch that a choice and a loop begin with. -/
theorem guarded_sound (hexpr : Sound expr .expression) (hstmt : Sound stmt .statement)
    (rounds : Nat) {word : Keyword} {t : Token} {test : Expr Span} {body : List (Stmt Span)}
    {s s₁ s₂ s' : TokenStream} (hs : s.Closed) (hword : expectKeyword word s = .ok t s₁)
    (htest : condition expr s₁ = .ok test s₂) (hbody : branch rounds stmt s₂ = .ok body s') :
    ∃ left ts right us, t.lexeme = .keyword word ∧ left.lexeme = .symbol .leftParen ∧
      Derives (.expression test) ts right ∧ right.lexeme = .symbol .rightParen ∧
      Derives (.branch body) us s'.here ∧ s.Passes (t :: left :: (ts ++ right :: us)) s' := by
  obtain ⟨rfl, ht, hpass⟩ := expectKeyword_passes hs hword
  obtain ⟨_, hpass₁, left, ts, right, rfl, hleft, htest, hright⟩ :=
    condition_sound hexpr (hpass.closed hs) htest
  have hboth := hpass.trans hpass₁
  obtain ⟨us, hus, hbody⟩ := branch_sound hstmt rounds (hboth.closed hs) hbody
  refine ⟨left, ts, right, us, ht, hleft, htest, hright, hbody, ?_⟩
  simpa using hboth.trans hus

/-- **Where an `else` goes.**  The first branch has been left in front of the `else`, so no `if` at
its end could have taken it. -/
theorem ifStatement_sound (hexpr : Sound expr .expression) (hstmt : Sound stmt .statement)
    (rounds : Nat) : Sound (ifStatement rounds expr stmt) .form := by
  intro s build s' hs h
  obtain ⟨word, s₁, hword, h⟩ := bind_eq_ok_iff.mp h
  obtain ⟨test, s₂, htest, h⟩ := bind_eq_ok_iff.mp h
  obtain ⟨yes, s₃, hyes, h⟩ := bind_eq_ok_iff.mp h
  obtain ⟨left, ts, right, us, hif, hleft, htest, hright, hyes, hall⟩ :=
    guarded_sound hexpr hstmt rounds hs hword htest hyes
  obtain ⟨given, s₄, haccept, h⟩ := bind_eq_ok_iff.mp h
  rcases acceptKeyword_cases (hall.closed hs) haccept with
    ⟨rfl, hother, hpass⟩ | ⟨rfl, rfl, hnext⟩
  · obtain ⟨no, s₅, hno, h⟩ := bind_eq_ok_iff.mp h
    obtain ⟨rfl, rfl⟩ := pure_eq_ok_iff.mp h
    obtain ⟨vs, hvs, hno⟩ := branch_sound hstmt rounds (hpass.closed (hall.closed hs)) hno
    refine ⟨_, hall.trans (hpass.trans hvs), ?_⟩
    simpa using Derives.ifElse hif hleft htest hright hyes hother hno
  · obtain ⟨rfl, rfl⟩ := pure_eq_ok_iff.mp h
    exact ⟨_, hall, .ifThen hif hleft htest hright hyes hnext⟩

theorem whileStatement_sound (hexpr : Sound expr .expression) (hstmt : Sound stmt .statement)
    (rounds : Nat) : Sound (whileStatement rounds expr stmt) .form := by
  intro s build s' hs h
  obtain ⟨word, s₁, hword, h⟩ := bind_eq_ok_iff.mp h
  obtain ⟨test, s₂, htest, h⟩ := bind_eq_ok_iff.mp h
  obtain ⟨body, s₃, hbody, h⟩ := bind_eq_ok_iff.mp h
  obtain ⟨rfl, rfl⟩ := pure_eq_ok_iff.mp h
  obtain ⟨left, ts, right, us, hwhile, hleft, htest, hright, hbody, hall⟩ :=
    guarded_sound hexpr hstmt rounds hs hword htest hbody
  exact ⟨_, hall, .whileLoop hwhile hleft htest hright hbody⟩

theorem forStatement_sound (hexpr : Sound expr .expression) (hstmt : Sound stmt .statement)
    (rounds : Nat) : Sound (forStatement rounds expr stmt) .form := by
  intro s build s' hs h
  obtain ⟨word, s₁, hword, h⟩ := bind_eq_ok_iff.mp h
  obtain ⟨rfl, hfor, hpass₁⟩ := expectKeyword_passes hs hword
  obtain ⟨left, s₂, hopen, h⟩ := bind_eq_ok_iff.mp h
  obtain ⟨rfl, hleft, hpass₂⟩ := expect_passes (hpass₁.closed hs) hopen
  have hs₂ := hpass₂.closed (hpass₁.closed hs)
  obtain ⟨⟨name, span⟩, s₃, hname, h⟩ := bind_eq_ok_iff.mp h
  obtain ⟨hlabel, -, hpass₃⟩ := identifier_passes hs₂ hname
  obtain ⟨within, s₄, hin, h⟩ := bind_eq_ok_iff.mp h
  obtain ⟨rfl, hwithin, hpass₄⟩ := expectKeyword_passes (hpass₃.closed hs₂) hin
  have hs₄ := hpass₄.closed (hpass₃.closed hs₂)
  obtain ⟨value, s₅, hvalue, h⟩ := bind_eq_ok_iff.mp h
  obtain ⟨ts, hts, hderives⟩ := hexpr hs₄ hvalue
  obtain ⟨right, s₆, hclose, h⟩ := bind_eq_ok_iff.mp h
  obtain ⟨rfl, hright, hpass₅⟩ := expect_passes (hts.closed hs₄) hclose
  have hs₆ := hpass₅.closed (hts.closed hs₄)
  obtain ⟨body, s₇, hbody, h⟩ := bind_eq_ok_iff.mp h
  obtain ⟨us, hus, hbody⟩ := branch_sound hstmt rounds hs₆ hbody
  obtain ⟨rfl, rfl⟩ := pure_eq_ok_iff.mp h
  exact ⟨_,
    hpass₁.trans (hpass₂.trans (hpass₃.trans (hpass₄.trans (hts.trans (hpass₅.trans hus))))),
    .forEach hfor hleft hlabel hwithin hderives hright hbody⟩

theorem tryStatement_sound (hstmt : Sound stmt .statement) (rounds : Nat) :
    Sound (tryStatement rounds stmt) .form := by
  have hblock := block_sound hstmt rounds
  intro s build s' hs h
  obtain ⟨word, s₁, hword, h⟩ := bind_eq_ok_iff.mp h
  obtain ⟨rfl, htry, hpass₁⟩ := expectKeyword_passes hs hword
  obtain ⟨body, s₂, hbody, h⟩ := bind_eq_ok_iff.mp h
  obtain ⟨ts, hts, hbody⟩ := hblock (hpass₁.closed hs) hbody
  have hs₂ := hts.closed (hpass₁.closed hs)
  obtain ⟨rescue, s₃, hcatch, h⟩ := bind_eq_ok_iff.mp h
  obtain ⟨rfl, hrescue, hpass₂⟩ := expectKeyword_passes hs₂ hcatch
  obtain ⟨left, s₄, hopen, h⟩ := bind_eq_ok_iff.mp h
  obtain ⟨rfl, hleft, hpass₃⟩ := expect_passes (hpass₂.closed hs₂) hopen
  have hs₄ := hpass₃.closed (hpass₂.closed hs₂)
  obtain ⟨⟨name, span⟩, s₅, hname, h⟩ := bind_eq_ok_iff.mp h
  obtain ⟨hlabel, -, hpass₄⟩ := identifier_passes hs₄ hname
  obtain ⟨right, s₆, hclose, h⟩ := bind_eq_ok_iff.mp h
  obtain ⟨rfl, hright, hpass₅⟩ := expect_passes (hpass₄.closed hs₄) hclose
  have hs₆ := hpass₅.closed (hpass₄.closed hs₄)
  obtain ⟨handler, s₇, hhandler, h⟩ := bind_eq_ok_iff.mp h
  obtain ⟨us, hus, hhandler⟩ := hblock hs₆ hhandler
  obtain ⟨rfl, rfl⟩ := pure_eq_ok_iff.mp h
  exact ⟨_,
    hpass₁.trans (hts.trans (hpass₂.trans (hpass₃.trans (hpass₄.trans (hpass₅.trans hus))))),
    .tryCatch htry hbody hrescue hleft hlabel hright hhandler⟩

theorem throwStatement_sound (hexpr : Sound expr .expression) :
    Sound (throwStatement expr) .form := by
  intro s build s' hs h
  obtain ⟨word, s₁, hword, h⟩ := bind_eq_ok_iff.mp h
  obtain ⟨rfl, hthrow, hpass⟩ := expectKeyword_passes hs hword
  obtain ⟨value, s₂, hvalue, h⟩ := bind_eq_ok_iff.mp h
  obtain ⟨ts, hts, hderives⟩ := hexpr (hpass.closed hs) hvalue
  obtain ⟨rfl, rfl⟩ := pure_eq_ok_iff.mp h
  exact ⟨_, hpass.trans hts, .throw hthrow hderives⟩

theorem returnStatement_sound (hexpr : Sound expr .expression) :
    Sound (returnStatement expr) .form := by
  intro s build s' hs h
  obtain ⟨word, s₁, hword, h⟩ := bind_eq_ok_iff.mp h
  obtain ⟨rfl, hreturn, hpass⟩ := expectKeyword_passes hs hword
  rw [peek_bind] at h
  split at h
  · next hend =>
    obtain ⟨rfl, rfl⟩ := pure_eq_ok_iff.mp h
    exact ⟨_, hpass, .ret hreturn (endsStatement_iff.mp hend)⟩
  · obtain ⟨value, s₂, hvalue, h⟩ := bind_eq_ok_iff.mp h
    obtain ⟨ts, hts, hderives⟩ := hexpr (hpass.closed hs) hvalue
    obtain ⟨rfl, rfl⟩ := pure_eq_ok_iff.mp h
    exact ⟨_, hpass.trans hts, .retValue hreturn hderives⟩

/-! ### The choice of a form -/

section Shape

variable {s s' : TokenStream} {ts : List Token}

theorem opensBlock_eq_false (hts : s.Passes ts s') (hhere : s.here.lexeme ≠ .symbol .leftBrace) :
    opensBlock ts = false := by
  match ts with
  | [] | [_] => rfl
  | [left, _] | left :: _ :: _ :: _ =>
    rw [hts.here_eq] at hhere
    simp [opensBlock, Token.isSymbol, hhere]

/-- A brace in front of a key and a colon opens a map. -/
theorem opensBlock_eq_false_of_key (hts : s.Passes ts s')
    (hkey : (s.peekNth 1).key?.isSome = true)
    (hcolon : (s.peekNth 2).isSymbol .colon = true) : opensBlock ts = false := by
  match ts with
  | [] | [_] => rfl
  | [left, right] =>
    rw [hts.peekNth_eq (n := 1) rfl] at hkey
    cases hlex : right.lexeme <;> simp_all [opensBlock, Token.key?, Token.isSymbol]
  | brace :: key :: colon :: _ =>
    rw [hts.peekNth_eq (n := 1) rfl] at hkey
    rw [hts.peekNth_eq (n := 2) rfl] at hcolon
    simp [opensBlock, hkey, hcolon]

theorem opensDeclaration_eq_false (hts : s.Passes ts s')
    (hhere : s.here.lexeme ≠ .keyword .function) : opensDeclaration ts = false := by
  match ts with
  | [] | [_] => rfl
  | word :: _ :: _ =>
    rw [hts.here_eq] at hhere
    simp [opensDeclaration, Token.isKeyword, hhere]

theorem opensDeclaration_eq_false_of_next (hts : s.Passes ts s')
    (hnext : (s.peekNth 1).isIdentifier = false) : opensDeclaration ts = false := by
  match ts with
  | [] | [_] => rfl
  | _ :: name :: _ =>
    rw [hts.peekNth_eq (n := 1) rfl] at hnext
    simp [opensDeclaration, hnext]

end Shape

/-- An expression as a statement, where the next tokens look like neither a block nor a
declaration. -/
theorem expressionStatement_sound (hexpr : Sound expr .expression) {s s' : TokenStream}
    {build : Span → Stmt Span} (hs : s.Closed)
    (hblock : ∀ ts t, s.Passes ts t → opensBlock ts = false)
    (hdeclaration : ∀ ts t, s.Passes ts t → opensDeclaration ts = false)
    (h : expressionStatement expr s = .ok build s') :
    ∃ ts, s.Passes ts s' ∧ Derives (.form build) ts s'.here := by
  obtain ⟨value, s₁, hvalue, h⟩ := bind_eq_ok_iff.mp h
  obtain ⟨ts, hts, hderives⟩ := hexpr hs hvalue
  obtain ⟨rfl, rfl⟩ := pure_eq_ok_iff.mp h
  exact ⟨ts, hts, .exprForm hderives (hblock ts _ hts) (hdeclaration ts _ hts)⟩

theorem braceForm_sound (hexpr : Sound expr .expression) (hstmt : Sound stmt .statement)
    (rounds : Nat) {s s' : TokenStream} {build : Span → Stmt Span} (hs : s.Closed)
    (hbrace : s.here.lexeme = .symbol .leftBrace)
    (h : statementForm rounds expr stmt s = .ok build s') :
    ∃ ts, s.Passes ts s' ∧ Derives (.form build) ts s'.here := by
  simp only [statementForm, peek_bind, hbrace, startsMap, bind_assoc, peekNth_bind, pure_bind] at h
  -- the two tokens after the brace decide between a map and a block
  split at h
  · next hmap =>
    rw [Bool.and_eq_true] at hmap
    exact expressionStatement_sound hexpr hs
      (fun _ _ hts => opensBlock_eq_false_of_key hts hmap.1 hmap.2)
      (fun _ _ hts => opensDeclaration_eq_false hts (by simp [hbrace])) h
  · obtain ⟨body, s₁, hbody, h⟩ := bind_eq_ok_iff.mp h
    obtain ⟨rfl, rfl⟩ := pure_eq_ok_iff.mp h
    obtain ⟨ts, hts, hderives⟩ := block_sound hstmt rounds hs hbody
    exact ⟨ts, hts, .blockForm hderives⟩

theorem functionForm_sound (hexpr : Sound expr .expression) (hstmt : Sound stmt .statement)
    (rounds : Nat) {s s' : TokenStream} {build : Span → Stmt Span} (hs : s.Closed)
    (hword : s.here.lexeme = .keyword .function)
    (h : statementForm rounds expr stmt s = .ok build s') :
    ∃ ts, s.Passes ts s' ∧ Derives (.form build) ts s'.here := by
  simp only [statementForm, peek_bind, hword, peekNth_bind] at h
  split at h
  · exact functionStatement_sound hstmt rounds hs h
  · next hnext =>
    exact expressionStatement_sound hexpr hs
      (fun _ _ hts => opensBlock_eq_false hts (by simp [hword]))
      (fun _ _ hts => opensDeclaration_eq_false_of_next hts (by simpa using hnext)) h

theorem statementForm_sound (hexpr : Sound expr .expression) (hstmt : Sound stmt .statement)
    (rounds : Nat) : Sound (statementForm rounds expr stmt) .form := by
  intro s build s' hs h
  by_cases hbrace : s.here.lexeme = .symbol .leftBrace
  · exact braceForm_sound hexpr hstmt rounds hs hbrace h
  by_cases hfunction : s.here.lexeme = .keyword .function
  · exact functionForm_sound hexpr hstmt rounds hs hfunction h
  have hother : ∀ {s'}, expressionStatement expr s = .ok build s' →
      ∃ ts, s.Passes ts s' ∧ Derives (.form build) ts s'.here :=
    expressionStatement_sound hexpr hs (fun _ _ hts => opensBlock_eq_false hts hbrace)
      (fun _ _ hts => opensDeclaration_eq_false hts hfunction)
  rw [statementForm, peek_bind] at h
  cases hlex : s.here.lexeme with
  | keyword word =>
    cases word
    case function => exact absurd hlex hfunction
    all_goals simp only [hlex] at h
    case letWord => exact letStatement_sound hexpr hs h
    case ifWord => exact ifStatement_sound hexpr hstmt rounds hs h
    case whileWord => exact whileStatement_sound hexpr hstmt rounds hs h
    case forWord => exact forStatement_sound hexpr hstmt rounds hs h
    case tryWord => exact tryStatement_sound hstmt rounds hs h
    case throwWord => exact throwStatement_sound hexpr hs h
    case returnWord => exact returnStatement_sound hexpr hs h
    case breakWord =>
      rw [advance_bind] at h
      obtain ⟨rfl, rfl⟩ := pure_eq_ok_iff.mp h
      exact ⟨_, passes_of_lexeme hs hlex (by simp), .brk hlex⟩
    case continueWord =>
      rw [advance_bind] at h
      obtain ⟨rfl, rfl⟩ := pure_eq_ok_iff.mp h
      exact ⟨_, passes_of_lexeme hs hlex (by simp), .cont hlex⟩
    all_goals exact hother h
  | symbol mark =>
    cases mark
    case leftBrace => exact absurd hlex hbrace
    all_goals
      simp only [hlex] at h
      exact hother h
  | _ =>
    simp only [hlex] at h
    exact hother h

theorem placedStatement_sound (hexpr : Sound expr .expression) (hstmt : Sound stmt .statement)
    (rounds : Nat) : Sound (placedStatement rounds expr stmt) .statement := by
  intro s stmt' s' hs h
  rw [placedStatement, peek_bind] at h
  obtain ⟨build, s₁, hform, h⟩ := bind_eq_ok_iff.mp h
  obtain ⟨ts, hts, hderives⟩ := statementForm_sound hexpr hstmt rounds hs hform
  obtain ⟨first, more, rfl⟩ := List.exists_cons_of_ne_nil (hderives.ne_nil rfl)
  -- the span is that of the form alone, whether or not a semicolon follows
  rw [hts.here_eq, bind_of_ok (spanFrom_of_passes hts)] at h
  obtain ⟨given, s₂, haccept, h⟩ := bind_eq_ok_iff.mp h
  obtain ⟨rfl, rfl⟩ := pure_eq_ok_iff.mp h
  rcases accept_cases (hts.closed hs) haccept with ⟨rfl, hmark, hpass⟩ | ⟨rfl, rfl, hnext⟩
  · exact ⟨_, hts.trans hpass, .ended hderives hmark⟩
  · exact ⟨_, hts, .bare hderives hnext⟩

end Statements

/-- The two parsers that tie the knot, by induction on the depth. -/
theorem expression_statement_sound (depth : Nat) :
    Sound (expression depth) .expression ∧ Sound (statement depth) .statement := by
  induction depth with
  | zero =>
    refine ⟨?_, ?_⟩
    · intro s e s' _ h
      exact absurd h fail_ne_ok
    · intro s stmt s' _ h
      exact absurd h fail_ne_ok
  | succ depth ih =>
    obtain ⟨hexpr, hstmt⟩ := ih
    exact ⟨assignment_sound hexpr (block_sound hstmt depth) depth,
      placedStatement_sound hexpr hstmt depth⟩

/-- Whenever the parser yields a statement, the tokens between the old and the new place in the
stream are a derivation of exactly that statement, in front of the token at the new place. -/
theorem derives_of_parseNext {s s' : TokenStream} {stmt : Stmt Span} (hs : s.Closed)
    (h : s.parseNext = (.ok stmt, s')) :
    ∃ ts, s.Passes ts s' ∧ Derives (.statement stmt) ts s'.here := by
  unfold parseNext at h
  split at h
  · next stmt' s₁ hstatement =>
    obtain ⟨hok, rfl⟩ := Prod.mk.inj h
    injection hok with hstmt
    subst hstmt
    exact (expression_statement_sound s.depthBound).2 hs hstatement
  · simp at h

end Script.Grammar
