import Script.Proofs.Grammar.Opening
import Script.Proofs.Grammar.Range
import Script.Proofs.Grammar.Soundness

/-!
# How far the parser looks

The parser looks ahead by two tokens at an opening brace and by one at the word for a function, and
it looks at the token behind a phrase to see whether the phrase goes on.  None of this reaches past
the token at which it stops in the end, whether or not it has found a statement: where it looks
further ahead, it moves at least as far afterwards.

The bounds on nesting and on the rounds of loops play no part in this, since every level of nesting
and every round takes a token.  So the parser comes to an end by itself, and how it ends is settled
by the tokens that it has passed and the one at which it stops.

## Main definitions

* `Parser.Ends`: what a parser does in front of given tokens, success or failure.
* `Parser.Foretells`: what one parser does from a stream tells what another does wherever the same
  tokens are seen.
* `Parser.Agree`: one parser foretells another on all short streams.

## Main results

* `Parser.agree_expression_statement`: parsers with enough depth foretell each other.
* `TokenStream.statement_eq_of_le`, `TokenStream.cause_ne_tooDeep`: the bound is never met.
* `TokenStream.parseNext_of_same_until_stop`: one token past a statement decides everything.
-/

namespace Script

/-! ## Places in a stream -/

namespace TokenStream

variable {s s' t t' : TokenStream} {ts : List Token} {k : Nat}

theorem Passes.remaining_eq (h : s.Passes ts s') : s.remaining = ts.length + s'.remaining := by
  have hlength := congrArg List.length h.rest_eq
  simp only [rest, List.length_append, List.length_cons] at hlength
  unfold remaining
  omega

theorem getElem?_rest_of_le {n : Nat} (h : n ≤ s.remaining) : s.rest[n]? = some (s.peekNth n) := by
  have hrest := getElem?_rest s n
  unfold remaining at h
  rwa [Nat.min_eq_left h] at hrest

/-- Looking ahead no further than to the token after those that will be passed. -/
theorem Passes.peekNth_congr {n : Nat} (hs : s.Passes ts s') (ht : t.Passes ts t')
    (hhere : t'.here = s'.here) (hn : n ≤ ts.length) : t.peekNth n = s.peekNth n := by
  have hsame : t.rest[n]? = s.rest[n]? := by
    rw [hs.rest_eq, ht.rest_eq]
    rcases Nat.lt_or_eq_of_le hn with hless | rfl
    · rw [List.getElem?_append_left hless, List.getElem?_append_left hless]
    · simp [rest, hhere]
  have hs' := hs.remaining_eq
  have ht' := ht.remaining_eq
  rw [getElem?_rest_of_le (by omega), getElem?_rest_of_le (by omega)] at hsame
  exact Option.some.inj hsame

/-- A closed stream with fewer than `k` tokens ahead. -/
structure Short (k : Nat) (s : TokenStream) : Prop where
  closed : s.Closed
  less : s.remaining < k

theorem Passes.short (h : s.Passes ts s') (hs : s.Short k) : s'.Short k := by
  have hlength := h.remaining_eq
  have hless := hs.less
  exact ⟨h.closed hs.closed, by omega⟩

theorem Passes.short_of_less (h : s.Passes ts s') (hless : s'.remaining < s.remaining)
    (hs : s.Short (k + 1)) : s'.Short k := by
  have hbound := hs.less
  exact ⟨h.closed hs.closed, by omega⟩

theorem Short.advance (hs : s.Short (k + 1)) (hhere : s.here.isEnd = false) :
    s.advance.Short k := by
  have hpass := passes_advance hs.closed hhere
  have hlength := hpass.remaining_eq
  rw [List.length_singleton] at hlength
  exact hpass.short_of_less (by omega) hs

end TokenStream

namespace Parser

open Outcome Grammar

variable {α β : Type}

/-! ## Endings -/

/-- The outcome `r` at the place where the stream stands. -/
def stopAt (s : TokenStream) : Except ParseError α → EStateM.Result ParseError TokenStream α
  | .ok a => .ok a s
  | .error e => .error e s

/-- In front of the tokens `ts` and then `next`, the parser moves past `ts` and ends with `r`. -/
def Ends (p : Parser α) (ts : List Token) (next : Token) (r : Except ParseError α) : Prop :=
  ∀ ⦃t t' : TokenStream⦄, t.Passes ts t' → t'.here = next → p t = stopAt t' r

/-- The ending is not for want of depth. -/
def Genuine : Except ParseError α → Prop
  | .ok _ => True
  | .error e => e.cause ≠ .tooDeep

/-- **One parser foretells another.**  From the stream `s`, the parser `p` passes some tokens, at
least as many as given, and ends.  From every stream that shows these tokens and the one after them,
`q` passes the same tokens and ends in the same way. -/
def Foretells (least : Nat) (p q : Parser α) (s : TokenStream) : Prop :=
  ∃ ts s' r, least ≤ ts.length ∧ s.Passes ts s' ∧ p s = stopAt s' r ∧ Genuine r ∧
    Ends q ts s'.here r

section Combinators

variable {p q : Parser α} {s : TokenStream} {j k : Nat}

theorem Foretells.mono (h : Foretells k p q s) (hle : j ≤ k) : Foretells j p q s := by
  obtain ⟨ts, s', r, hleast, hrest⟩ := h
  exact ⟨ts, s', r, Nat.le_trans hle hleast, hrest⟩

/-- Parsers that differ only at other tokens than the current one. -/
theorem Foretells.congr_here {p' q' : Parser α} (h : Foretells k p q s) (hp : p' s = p s)
    (hq : ∀ t : TokenStream, t.here = s.here → q' t = q t) : Foretells k p' q' s := by
  obtain ⟨ts, s', r, hleast, hpass, hrun, hgenuine, hends⟩ := h
  refine ⟨ts, s', r, hleast, hpass, hp.trans hrun, hgenuine, ?_⟩
  intro t t' ht hnext
  have hhere : t.here = s.here := by rw [ht.here_eq_headD, hpass.here_eq_headD, hnext]
  exact (hq t hhere).trans (hends ht hnext)

theorem foretells_pure (a : α) : Foretells 0 (pure a : Parser α) (pure a) s := by
  refine ⟨[], s, .ok a, Nat.le_refl 0, .refl s, rfl, trivial, ?_⟩
  intro t t' ht _
  rw [ht.eq_of_nil]
  rfl

theorem foretells_fail {cause : ParseError.Cause} (h : cause ≠ .tooDeep) :
    Foretells 0 (fail cause : Parser α) (fail cause) s := by
  refine ⟨[], s, .error ⟨cause, s.here⟩, Nat.le_refl 0, .refl s, rfl, h, ?_⟩
  intro t t' ht hnext
  rw [ht.eq_of_nil, ← hnext]
  rfl

theorem foretells_failAt {cause : ParseError.Cause} (h : cause ≠ .tooDeep) (token : Token) :
    Foretells 0 (failAt cause token : Parser α) (failAt cause token) s := by
  refine ⟨[], s, .error ⟨cause, token⟩, Nat.le_refl 0, .refl s, rfl, h, ?_⟩
  intro t t' ht _
  rw [ht.eq_of_nil]
  rfl

/-- **Sequence.**  The second part starts where the first has stopped. -/
theorem Foretells.bind {f g : α → Parser β} (hp : Foretells k p q s)
    (hf : ∀ a s' ts, p s = .ok a s' → s.Passes ts s' → Foretells 0 (f a) (g a) s') :
    Foretells k (p >>= f) (q >>= g) s := by
  obtain ⟨ts, s₁, r, hleast, hpass, hrun, hgenuine, hends⟩ := hp
  cases r with
  | error e =>
    refine ⟨ts, s₁, .error e, hleast, hpass, bind_of_error hrun, hgenuine, ?_⟩
    intro t t' ht hnext
    exact bind_of_error (hends ht hnext)
  | ok a =>
    obtain ⟨us, s₂, r, -, hpass₂, hrun₂, hgenuine₂, hends₂⟩ := hf a s₁ ts hrun hpass
    refine ⟨ts ++ us, s₂, r, ?_, hpass.trans hpass₂, (bind_of_ok hrun).trans hrun₂, hgenuine₂, ?_⟩
    · rw [List.length_append]
      omega
    · intro t t' ht hnext
      obtain ⟨t₁, ht₁, ht₂⟩ := ht.split
      have hhere : t₁.here = s₁.here := by
        rw [ht₂.here_eq_headD, hpass₂.here_eq_headD, hnext]
      exact (bind_of_ok (hends ht₁ hhere)).trans (hends₂ ht₂ hnext)

theorem foretells_peek_bind {f g : Token → Parser β} (h : Foretells k (f s.here) (g s.here) s) :
    Foretells k (peek >>= f) (peek >>= g) s :=
  h.congr_here rfl fun t ht => by rw [peek_bind, ht]

/-- Looking ahead no further than the parser is sure to move. -/
theorem foretells_peekNth_bind {n : Nat} {f g : Token → Parser β} (hn : n ≤ k)
    (h : Foretells k (f (s.peekNth n)) (g (s.peekNth n)) s) :
    Foretells k (peekNth n >>= f) (peekNth n >>= g) s := by
  obtain ⟨ts, s', r, hleast, hpass, hrun, hgenuine, hends⟩ := h
  refine ⟨ts, s', r, hleast, hpass, hrun, hgenuine, ?_⟩
  intro t t' ht hnext
  rw [peekNth_bind, hpass.peekNth_congr ht hnext (Nat.le_trans hn hleast)]
  exact hends ht hnext

theorem foretells_advance_bind {f g : Token → Parser β} (hs : s.Closed)
    (hhere : s.here.isEnd = false) (h : Foretells k (f s.here) (g s.here) s.advance) :
    Foretells (k + 1) (advance >>= f) (advance >>= g) s := by
  obtain ⟨ts, s', r, hleast, hpass, hrun, hgenuine, hends⟩ := h
  refine ⟨s.here :: ts, s', r, Nat.succ_le_succ hleast,
    (TokenStream.passes_advance hs hhere).trans hpass, hrun, hgenuine, ?_⟩
  intro t t' ht hnext
  rw [advance_bind, ht.here_eq]
  exact hends (ht.advance hhere) hnext

/-- Nothing moves past an end mark. -/
theorem foretells_advance_bind_of_end {f g : Token → Parser β} (hend : s.here.isEnd = true)
    (h : Foretells k (f s.here) (g s.here) s) :
    Foretells k (advance >>= f) (advance >>= g) s := by
  have hstay : ∀ t : TokenStream, t.here = s.here → t.advance = t := by
    intro t ht
    simp [TokenStream.advance, ht, hend]
  refine h.congr_here ?_ fun t ht => ?_
  · rw [advance_bind, hstay s rfl]
  · rw [advance_bind, hstay t ht, ht]

/-- Every result of the parser costs tokens. -/
def Progresses (p : Parser α) : Prop :=
  ∀ ⦃s : TokenStream⦄ ⦃a : α⦄ ⦃s' : TokenStream⦄, s.Closed → p s = .ok a s' →
    s'.remaining < s.remaining

theorem progresses_of_sound {phrase : α → Phrase} (hp : Sound p phrase)
    (hsolid : ∀ a, (phrase a).solid = true) : Progresses p := by
  intro s a s' hs h
  obtain ⟨ts, hpass, hderives⟩ := hp hs h
  have hpos := List.length_pos_iff.mpr (hderives.ne_nil (hsolid a))
  have hlength := hpass.remaining_eq
  omega

/-- The span of a phrase ends with the last of its tokens, so that no token in front of the phrase
plays a part. -/
theorem Foretells.bind_spanFrom {f g : α → Span → Parser β} (start : Nat) (hs : s.Closed)
    (hprogress : Progresses p) (hp : Foretells k p q s)
    (hf : ∀ a span s' ts, s.Passes ts s' → Foretells 0 (f a span) (g a span) s') :
    Foretells k (p >>= fun a => spanFrom start >>= f a) (q >>= fun a => spanFrom start >>= g a)
      s := by
  obtain ⟨ts, s₁, r, hleast, hpass, hrun, hgenuine, hends⟩ := hp
  cases r with
  | error e =>
    refine ⟨ts, s₁, .error e, hleast, hpass, bind_of_error hrun, hgenuine, ?_⟩
    intro t t' ht hnext
    exact bind_of_error (hends ht hnext)
  | ok a =>
    have hne : ts ≠ [] := by
      rintro rfl
      have hless := hprogress hs hrun
      rw [hpass.eq_of_nil] at hless
      exact Nat.lt_irrefl _ hless
    obtain ⟨init, last, rfl⟩ := (List.eq_nil_or_concat ts).resolve_left hne
    have hspan : ∀ {t t' : TokenStream}, t.Passes (init.concat last) t' →
        spanFrom start t' = .ok ⟨start, max last.span.stop start⟩ t' := by
      intro t t' ht
      have hprevious : t'.previous? = some last := by
        rw [TokenStream.previous?, ht.behind_eq]
        simp
      simp only [spanFrom, hprevious]
    obtain ⟨us, s₂, r, -, hpass₂, hrun₂, hgenuine₂, hends₂⟩ :=
      hf a ⟨start, max last.span.stop start⟩ s₁ _ hpass
    refine ⟨init.concat last ++ us, s₂, r, ?_, hpass.trans hpass₂, ?_, hgenuine₂, ?_⟩
    · rw [List.length_append]
      omega
    · exact (bind_of_ok hrun).trans ((bind_of_ok (hspan hpass)).trans hrun₂)
    · intro t t' ht hnext
      obtain ⟨t₁, ht₁, ht₂⟩ := ht.split
      have hhere : t₁.here = s₁.here := by
        rw [ht₂.here_eq_headD, hpass₂.here_eq_headD, hnext]
      exact (bind_of_ok (hends ht₁ hhere)).trans
        ((bind_of_ok (hspan ht₁)).trans (hends₂ ht₂ hnext))

end Combinators

/-! ## Agreement on short streams -/

/-- On every stream with fewer than `k` tokens ahead, the first parser foretells the second, and it
passes at least as many tokens as `least` says. -/
def Agree (least : TokenStream → Nat) (k : Nat) (p q : Parser α) : Prop :=
  ∀ ⦃s : TokenStream⦄, s.Short k → Foretells (least s) p q s

/-- No tokens are sure to be passed. -/
abbrev unsure : TokenStream → Nat := fun _ => 0

section Agreement

variable {p q : Parser α} {least : TokenStream → Nat} {j k : Nat}

theorem agree_zero : Agree least 0 p q := fun _ hs => absurd hs.less (Nat.not_lt_zero _)

theorem Agree.mono (h : Agree least k p q) (hle : j ≤ k) : Agree least j p q :=
  fun _ hs => h ⟨hs.closed, Nat.lt_of_lt_of_le hs.less hle⟩

theorem Agree.loosen (h : Agree least k p q) : Agree unsure k p q :=
  fun _ hs => (h hs).mono (Nat.zero_le _)

theorem agree_pure (a : α) : Agree unsure k (pure a) (pure a) := fun _ _ => foretells_pure a

theorem Agree.bind {f g : α → Parser β} (hp : Agree least k p q)
    (hf : ∀ a, Agree unsure k (f a) (g a)) : Agree least k (p >>= f) (q >>= g) :=
  fun _ hs => (hp hs).bind fun a _ _ _ hpass => hf a (hpass.short hs)

/-- What follows a parser that costs tokens need only agree on shorter streams. -/
theorem Agree.bind_of_progresses {f g : α → Parser β} (hp : Agree least (k + 1) p q)
    (hprogress : Progresses p) (hf : ∀ a, Agree unsure k (f a) (g a)) :
    Agree least (k + 1) (p >>= f) (q >>= g) :=
  fun _ hs => (hp hs).bind fun a _ _ hrun hpass =>
    hf a (hpass.short_of_less (hprogress hs.closed hrun) hs)

theorem agree_peek_bind {f g : Token → Parser β}
    (h : ∀ ⦃s : TokenStream⦄, s.Short k → Foretells (least s) (f s.here) (g s.here) s) :
    Agree least k (peek >>= f) (peek >>= g) :=
  fun _ hs => foretells_peek_bind (h hs)

theorem agree_ite {b : Prop} [Decidable b] {p' q' : Parser α} (hp : Agree least k p q)
    (hp' : Agree least k p' q') : Agree least k (if b then p else p') (if b then q else q') := by
  split
  · exact hp
  · exact hp'

/-- A token that says something is passed, and what follows need only agree on shorter streams. -/
theorem foretells_take {f g : Token → Parser β} {s : TokenStream} {l : Lexeme}
    (hs : s.Short (k + 1)) (hhere : s.here.lexeme = l) (hl : l ≠ .endOfInput)
    (h : Agree unsure k (f s.here) (g s.here)) :
    Foretells 1 (advance >>= f) (advance >>= g) s :=
  foretells_advance_bind hs.closed (Token.not_isEnd_of_lexeme hhere hl)
    (h (hs.advance (Token.not_isEnd_of_lexeme hhere hl)))

theorem agree_bind_spanFrom {f g : α → Span → Parser β} (start : Nat) (hp : Agree least k p q)
    (hprogress : Progresses p) (hf : ∀ a span, Agree unsure k (f a span) (g a span)) :
    Agree least k (p >>= fun a => spanFrom start >>= f a)
      (q >>= fun a => spanFrom start >>= g a) :=
  fun _ hs => (hp hs).bind_spanFrom start hs.closed hprogress fun a span _ _ hpass =>
    hf a span (hpass.short hs)

end Agreement

/-! ### Single tokens -/

section Tokens

variable {k : Nat}

/-- One if the stream stands at the given lexeme. -/
def atLexeme (l : Lexeme) (s : TokenStream) : Nat := if s.here.lexeme = l then 1 else 0

theorem foretells_advance {s : TokenStream} {l : Lexeme} (hs : s.Closed)
    (hhere : s.here.lexeme = l) (hl : l ≠ .endOfInput) : Foretells 1 advance advance s := by
  have htake := foretells_advance_bind (f := pure) (g := pure) hs
    (Token.not_isEnd_of_lexeme hhere hl) (foretells_pure s.here)
  rwa [bind_pure] at htake

theorem foretells_advance_pure {s : TokenStream} {l : Lexeme} (hs : s.Closed)
    (hhere : s.here.lexeme = l) (hl : l ≠ .endOfInput) (a : α) :
    Foretells 1 (advance >>= fun _ => pure a) (advance >>= fun _ => pure a) s :=
  foretells_advance_bind hs (Token.not_isEnd_of_lexeme hhere hl) (foretells_pure a)

theorem agree_expect (mark : Symbol) {cause : ParseError.Cause} (h : cause ≠ .tooDeep) :
    Agree (atLexeme (.symbol mark)) k (expect mark cause) (expect mark cause) := by
  refine agree_peek_bind fun s hs => ?_
  by_cases hmark : s.here.lexeme = .symbol mark
  · rw [if_pos (Token.isSymbol_iff.mpr hmark), atLexeme, if_pos hmark]
    exact foretells_advance hs.closed hmark (by simp)
  · rw [if_neg (mt Token.isSymbol_iff.mp hmark), atLexeme, if_neg hmark]
    exact foretells_fail h

theorem agree_expectKeyword (word : Keyword) :
    Agree (atLexeme (.keyword word)) k (expectKeyword word) (expectKeyword word) := by
  refine agree_peek_bind fun s hs => ?_
  by_cases hword : s.here.lexeme = .keyword word
  · rw [if_pos (Token.isKeyword_iff.mpr hword), atLexeme, if_pos hword]
    exact foretells_advance hs.closed hword (by simp)
  · rw [if_neg (mt Token.isKeyword_iff.mp hword), atLexeme, if_neg hword]
    exact foretells_fail (by simp)

theorem agree_identifier {cause : ParseError.Cause} (h : cause ≠ .tooDeep) :
    Agree unsure k (identifier cause) (identifier cause) := by
  refine agree_peek_bind fun s hs => ?_
  cases hlex : s.here.lexeme with
  | identifier name =>
    exact (foretells_advance_pure hs.closed hlex (by simp) _).mono (Nat.zero_le _)
  | number _ | quoted _ | keyword _ | symbol _ | endOfInput => exact foretells_fail h

theorem agree_accept (mark : Symbol) : Agree unsure k (accept mark) (accept mark) := by
  refine agree_peek_bind fun s hs => ?_
  split
  · next h =>
    have htake := foretells_advance_pure hs.closed (Token.isSymbol_iff.mp h) (by simp) true
    exact htake.mono (Nat.zero_le _)
  · exact foretells_pure false

theorem agree_acceptKeyword (word : Keyword) :
    Agree unsure k (acceptKeyword word) (acceptKeyword word) := by
  refine agree_peek_bind fun s hs => ?_
  split
  · next h =>
    have htake := foretells_advance_pure hs.closed (Token.isKeyword_iff.mp h) (by simp) true
    exact htake.mono (Nat.zero_le _)
  · exact foretells_pure false

/-- A mark that is there is passed, so what follows it need only agree on shorter streams. -/
theorem agree_accept_bind {mark : Symbol} {f g : Bool → Parser β}
    (hyes : Agree unsure k (f true) (g true)) (hno : Agree unsure (k + 1) (f false) (g false)) :
    Agree unsure (k + 1) (accept mark >>= f) (accept mark >>= g) := by
  intro s hs
  refine (agree_accept mark hs).bind fun found s' ts hrun hpass => ?_
  rcases accept_cases hs.closed hrun with ⟨rfl, -, hone⟩ | ⟨rfl, rfl, -⟩
  · have hlength := hone.remaining_eq
    rw [List.length_singleton] at hlength
    exact hyes (hone.short_of_less (by omega) hs)
  · exact hno hs

theorem progresses_expectKeyword {word : Keyword} : Progresses (expectKeyword word) := by
  intro s a s' hs h
  have hlength := (expectKeyword_passes hs h).2.2.remaining_eq
  rw [List.length_singleton] at hlength
  omega

end Tokens

/-! ### Expressions -/

/-- The number of tokens that an expression or a statement passes for sure.  An opening brace with a
key after it is passed together with the key, whatever stands behind the key. -/
def sure (s : TokenStream) : Nat :=
  if s.here.lexeme = .symbol .leftBrace ∧ (s.peekNth 1).key?.isSome = true then 2
  else if s.here.lexeme.beginsPrimary then 1
  else 0

/-- One if the stream stands at a key. -/
def atKey (s : TokenStream) : Nat := if s.here.key?.isSome then 1 else 0

section Sure

variable {s : TokenStream}

theorem sure_eq_zero (h : s.here.lexeme.beginsPrimary = false) : sure s = 0 := by
  have hbrace : s.here.lexeme ≠ .symbol .leftBrace := by
    intro hlex
    rw [hlex] at h
    exact absurd h (by decide)
  simp [sure, h, hbrace]

theorem sure_le_one (h : s.here.lexeme ≠ .symbol .leftBrace) : sure s ≤ 1 := by
  unfold sure
  rw [if_neg (fun hboth => h hboth.1)]
  split <;> omega

theorem one_le_sure (h : s.here.lexeme.beginsPrimary = true) : 1 ≤ sure s := by
  unfold sure
  rw [if_pos h]
  split <;> omega

theorem atKey_le_one : atKey s ≤ 1 := by
  unfold atKey
  split <;> omega

theorem atKey_le_sure : atKey s ≤ sure s := by
  unfold atKey
  split
  · next hkey =>
    apply one_le_sure
    unfold Token.key? at hkey
    split at hkey
    · next h => rw [h]; rfl
    · next h => rw [h]; rfl
    · cases hkey
  · exact Nat.zero_le _

/-- An opening brace leads to the key after it. -/
theorem sure_le_atKey_advance (hs : s.Closed) (hhere : s.here.isEnd = false) :
    sure s ≤ atKey s.advance + 1 := by
  have hpass := TokenStream.passes_advance hs hhere
  have hnext : s.peekNth 1 = s.advance.here := by
    have hlength := hpass.remaining_eq
    rw [List.length_singleton] at hlength
    have hone := TokenStream.getElem?_rest_of_le (s := s) (n := 1) (by omega)
    rw [hpass.rest_eq] at hone
    exact (Option.some.inj hone).symm
  unfold sure atKey
  rw [hnext]
  split
  · next h => simp [h.2]
  · split <;> omega

end Sure

section Expressions

variable {k rounds rounds' : Nat} {least : TokenStream → Nat} {item item' : Parser α}
variable {operand operand' expr expr' : Parser (Expr Span)}
variable {body body' : Parser (List (Stmt Span))}

theorem agree_items {close : Symbol}
    (hclose : ∀ s : TokenStream, s.here.lexeme = .symbol close → least s = 0)
    (hitem : Agree least k item item') (h : k ≤ rounds) (h' : k ≤ rounds') :
    Agree least k (items close item rounds) (items close item' rounds') := by
  induction k generalizing rounds rounds' with
  | zero => exact agree_zero
  | succ k ih =>
    obtain ⟨rounds, rfl⟩ := Nat.exists_eq_add_of_le' h
    obtain ⟨rounds', rfl⟩ := Nat.exists_eq_add_of_le' h'
    refine agree_peek_bind fun s hs => ?_
    split
    · next hmark =>
      rw [hclose s (Token.isSymbol_iff.mp hmark)]
      exact foretells_pure []
    · refine (hitem hs).bind fun first s₁ ts _ hpass => ?_
      refine agree_accept_bind ?_ (agree_pure [first]) (hpass.short hs)
      have hmore := ih (hitem.mono (Nat.le_succ k)) (Nat.le_add_left k rounds)
        (Nat.le_add_left k rounds')
      exact hmore.loosen.bind fun others => agree_pure (first :: others)

theorem agree_binaryRest (level : List (Symbol × BinaryOp))
    (hoperand : Agree unsure k operand operand') (h : k ≤ rounds) (h' : k ≤ rounds')
    (left : Expr Span) :
    Agree unsure k (binaryRest level operand rounds left)
      (binaryRest level operand' rounds' left) := by
  induction k generalizing rounds rounds' left with
  | zero => exact agree_zero
  | succ k ih =>
    obtain ⟨rounds, rfl⟩ := Nat.exists_eq_add_of_le' h
    obtain ⟨rounds', rfl⟩ := Nat.exists_eq_add_of_le' h'
    refine agree_peek_bind fun s hs => ?_
    cases hop : operator? level s.here with
    | none => exact foretells_pure left
    | some op =>
      obtain ⟨mark, hmark⟩ : ∃ mark, s.here.lexeme = .symbol mark := by
        unfold operator? at hop
        split at hop
        · next mark hmark => exact ⟨mark, hmark⟩
        · cases hop
      have hshort := hoperand.mono (Nat.le_succ k)
      have hmore := fun right : Expr Span => ih hshort (Nat.le_add_left k rounds)
        (Nat.le_add_left k rounds') (.binary (left.ann.join right.ann) op left right)
      exact (foretells_take hs hmark (by simp) (hshort.bind hmore)).mono (Nat.zero_le _)

theorem agree_binaryLevel (level : List (Symbol × BinaryOp))
    (hoperand : Agree least k operand operand') (h : k ≤ rounds) (h' : k ≤ rounds') :
    Agree least k (binaryLevel rounds level operand) (binaryLevel rounds' level operand') :=
  hoperand.bind fun left => agree_binaryRest level hoperand.loosen h h' left

theorem agree_unary (hoperand : Agree sure k operand operand') (h : k ≤ rounds)
    (h' : k ≤ rounds') : Agree sure k (unary operand rounds) (unary operand' rounds') := by
  induction k generalizing rounds rounds' with
  | zero => exact agree_zero
  | succ k ih =>
    obtain ⟨rounds, rfl⟩ := Nat.exists_eq_add_of_le' h
    obtain ⟨rounds', rfl⟩ := Nat.exists_eq_add_of_le' h'
    refine agree_peek_bind fun s hs => ?_
    cases hop : unaryOperator? s.here with
    | none => exact hoperand hs
    | some op =>
      have hmark := unaryOperator?_eq_some_iff.mp hop
      have hnone : sure s = 0 := sure_eq_zero (by rw [hmark]; cases op <;> rfl)
      have hright := ih (hoperand.mono (Nat.le_succ k)) (Nat.le_add_left k rounds)
        (Nat.le_add_left k rounds')
      have hwhole := hright.loosen.bind fun right =>
        agree_pure (Expr.unary (s.here.span.join right.ann) op right)
      rw [hnone]
      exact (foretells_take hs hmark (by simp) hwhole).mono (Nat.zero_le _)

theorem agree_parameterNames (h : k ≤ rounds) (h' : k ≤ rounds') :
    Agree unsure k (parameterNames rounds) (parameterNames rounds') := by
  induction k generalizing rounds rounds' with
  | zero => exact agree_zero
  | succ k ih =>
    obtain ⟨rounds, rfl⟩ := Nat.exists_eq_add_of_le' h
    obtain ⟨rounds', rfl⟩ := Nat.exists_eq_add_of_le' h'
    refine (agree_identifier (by simp)).bind fun first => ?_
    refine agree_accept_bind ?_ (agree_pure [first.1])
    exact (ih (Nat.le_add_left k rounds) (Nat.le_add_left k rounds')).bind fun others =>
      agree_pure (first.1 :: others)

theorem agree_parameters (h : k ≤ rounds) (h' : k ≤ rounds') :
    Agree unsure k (parameters rounds) (parameters rounds') := by
  refine agree_peek_bind fun s hs => ?_
  split
  · exact foretells_pure []
  · exact agree_parameterNames h h' hs

theorem agree_functionRest (hbody : Agree unsure k body body') (h : k ≤ rounds)
    (h' : k ≤ rounds') :
    Agree unsure k (functionRest rounds body) (functionRest rounds' body') := by
  refine (agree_expect _ (by simp)).loosen.bind fun _ => ?_
  refine (agree_parameters h h').bind fun params => ?_
  refine (agree_expect _ (by simp)).loosen.bind fun _ => ?_
  exact hbody.bind fun statements => agree_pure (params, statements)

theorem agree_mapEntry (hexpr : Agree unsure k expr expr') :
    Agree atKey k (mapEntry expr) (mapEntry expr') := by
  intro s hs
  cases hend : s.here.isEnd with
  | true =>
    have hkey : s.here.key? = none := by simp [Token.key?, Token.isEnd_iff.mp hend]
    refine foretells_advance_bind_of_end hend ?_
    simp only [hkey, atKey, Option.isSome_none]
    exact foretells_failAt (by simp) _
  | false =>
    have hpass := TokenStream.passes_advance hs.closed hend
    refine (foretells_advance_bind (k := 0) hs.closed hend ?_).mono atKey_le_one
    cases s.here.key? with
    | none => exact foretells_failAt (by simp) _
    | some key =>
      refine Agree.bind (agree_expect _ (by simp)).loosen (fun _ => ?_) (hpass.short hs)
      exact hexpr.bind fun value => agree_pure (key, value)

theorem agree_literalName : Agree unsure k literalName literalName := by
  refine agree_peek_bind fun s hs => ?_
  split
  · exact Agree.bind (agree_identifier (by simp)) (fun named => agree_pure (some named.1)) hs
  · exact foretells_pure none

/-- A token that is an expression by itself. -/
theorem foretells_word {s : TokenStream} {l : Lexeme} (hs : s.Closed) (hhere : s.here.lexeme = l)
    (hl : l ≠ .endOfInput) (hbrace : l ≠ .symbol .leftBrace) (e : Expr Span) :
    Foretells (sure s) (advance >>= fun _ => pure e) (advance >>= fun _ => pure e) s :=
  (foretells_advance_pure hs hhere hl e).mono (sure_le_one (hhere ▸ hbrace))

theorem agree_primary (hexpr : Agree sure k expr expr') (hbody : Agree unsure k body body')
    (hsound : Sound body .block) (h : k ≤ rounds) (h' : k ≤ rounds') :
    Agree sure (k + 1) (primary rounds expr body) (primary rounds' expr' body') := by
  refine agree_peek_bind fun s hs => ?_
  cases hlex : s.here.lexeme with
  | number numeral =>
    refine (foretells_take hs hlex (by simp) ?_).mono
      (sure_le_one (by simp [hlex]))
    cases Numeral.read? numeral with
    | some value => exact agree_pure _
    | none => exact fun _ _ => foretells_failAt (by simp) _
  | quoted content => exact foretells_word hs.closed hlex (by simp) (by simp) _
  | identifier name => exact foretells_word hs.closed hlex (by simp) (by simp) _
  | endOfInput =>
    rw [sure_eq_zero (by rw [hlex]; rfl)]
    exact foretells_fail (by simp)
  | keyword word =>
    cases word
    case trueWord | falseWord | undefined =>
      exact foretells_word hs.closed hlex (by simp) (by simp) _
    case function =>
      have hprogress := progresses_of_sound (functionRest_sound hsound rounds) fun _ => rfl
      refine (foretells_take hs hlex (by simp) ?_).mono
        (sure_le_one (by simp [hlex]))
      refine agree_literalName.bind fun name => ?_
      exact agree_bind_spanFrom (f := fun code span => pure (Expr.lambda span name code.1 code.2))
        (g := fun code span => pure (Expr.lambda span name code.1 code.2)) s.here.span.start
        (agree_functionRest hbody h h') hprogress fun _ _ => agree_pure _
    all_goals
      rw [sure_eq_zero (by rw [hlex]; rfl)]
      exact foretells_fail (by simp)
  | symbol mark =>
    cases mark
    case leftParen =>
      refine (foretells_take hs hlex (by simp) ?_).mono
        (sure_le_one (by simp [hlex]))
      refine hexpr.loosen.bind fun inner => ?_
      exact (agree_expect _ (by simp)).loosen.bind fun close => agree_pure _
    case leftBracket =>
      refine (foretells_take hs hlex (by simp) ?_).mono
        (sure_le_one (by simp [hlex]))
      refine (agree_items (fun _ _ => rfl) hexpr.loosen h h').bind fun elements => ?_
      exact (agree_expect _ (by simp)).loosen.bind fun close => agree_pure _
    case leftBrace =>
      have hend := Token.not_isEnd_of_lexeme hlex (by simp)
      have hclose : ∀ s : TokenStream, s.here.lexeme = .symbol .rightBrace → atKey s = 0 := by
        intro s hright
        simp [atKey, Token.key?, hright]
      have hentries := agree_items hclose (agree_mapEntry hexpr.loosen) h h'
      refine (foretells_advance_bind hs.closed hend ?_).mono (sure_le_atKey_advance hs.closed hend)
      refine hentries.bind (fun entries => ?_) (hs.advance hend)
      exact (agree_expect _ (by simp)).loosen.bind fun close => agree_pure _
    all_goals
      rw [sure_eq_zero (by rw [hlex]; rfl)]
      exact foretells_fail (by simp)

/-- What is applied to an expression.  The parts stand behind a mark, so that they are on shorter
streams. -/
theorem agree_postfixRest (hexpr : ∀ j < k, Agree unsure j expr expr') (h : k ≤ rounds)
    (h' : k ≤ rounds') (left : Expr Span) :
    Agree unsure k (postfixRest expr rounds left) (postfixRest expr' rounds' left) := by
  induction k generalizing rounds rounds' left with
  | zero => exact agree_zero
  | succ k ih =>
    obtain ⟨rounds, rfl⟩ := Nat.exists_eq_add_of_le' h
    obtain ⟨rounds', rfl⟩ := Nat.exists_eq_add_of_le' h'
    have hshort := hexpr k (Nat.lt_succ_self k)
    have hmore := fun left => ih (fun j hj => hexpr j (Nat.lt_succ_of_lt hj))
      (Nat.le_add_left k rounds) (Nat.le_add_left k rounds') left
    refine agree_peek_bind fun s hs => ?_
    cases hlex : s.here.lexeme with
    | symbol mark =>
      cases mark
      case leftParen =>
        refine (foretells_take hs hlex (by simp) ?_).mono (Nat.zero_le _)
        refine (agree_items (fun _ _ => rfl) hshort (Nat.le_add_left k rounds)
          (Nat.le_add_left k rounds')).bind fun args => ?_
        exact (agree_expect _ (by simp)).loosen.bind fun close => hmore _
      case leftBracket =>
        refine (foretells_take hs hlex (by simp) ?_).mono (Nat.zero_le _)
        refine hshort.bind fun key => ?_
        exact (agree_expect _ (by simp)).loosen.bind fun close => hmore _
      case dot =>
        refine (foretells_take hs hlex (by simp) ?_).mono (Nat.zero_le _)
        exact (agree_identifier (by simp)).bind fun named => hmore _
      all_goals exact foretells_pure left
    | identifier _ | number _ | quoted _ | keyword _ | endOfInput => exact foretells_pure left

theorem agree_foldr_binaryLevel (levels : List (List (Symbol × BinaryOp)))
    (hoperand : Agree least k operand operand') (h : k ≤ rounds) (h' : k ≤ rounds') :
    Agree least k (levels.foldr (binaryLevel rounds) operand)
      (levels.foldr (binaryLevel rounds') operand') := by
  induction levels with
  | nil => exact hoperand
  | cons level levels ih => exact agree_binaryLevel level ih h h'

theorem agree_operation (hexpr : Agree sure k expr expr') (hbody : Agree unsure k body body')
    (hsound : Sound body .block) (h : k + 1 ≤ rounds) (h' : k + 1 ≤ rounds') :
    Agree sure (k + 1) (operation rounds expr body) (operation rounds' expr' body') := by
  have hprimary := agree_primary hexpr hbody hsound (Nat.le_of_succ_le h) (Nat.le_of_succ_le h')
  have hparts := fun j (hj : j < k + 1) => hexpr.loosen.mono (Nat.le_of_lt_succ hj)
  have happlied := hprimary.bind fun head => agree_postfixRest hparts h h' head
  exact agree_foldr_binaryLevel binaryLevels (agree_unary happlied h h') h h'

theorem agree_assignment (hexpr : Agree sure k expr expr') (hbody : Agree unsure k body body')
    (hsound : Sound body .block) (h : k + 1 ≤ rounds) (h' : k + 1 ≤ rounds') :
    Agree sure (k + 1) (assignment rounds expr body) (assignment rounds' expr' body') := by
  refine (agree_operation hexpr hbody hsound h h').bind fun left => ?_
  refine agree_peek_bind fun s hs => ?_
  split
  · next hmark =>
    refine (foretells_take hs (Token.isSymbol_iff.mp hmark) (by simp) ?_).mono (Nat.zero_le _)
    refine hexpr.loosen.bind fun value => ?_
    cases left.toTarget? with
    | some target => exact agree_pure _
    | none => exact fun _ _ => foretells_failAt (by simp) _
  · exact foretells_pure left

end Expressions

/-! ### Statements -/

section Statements

variable {k rounds rounds' : Nat} {expr expr' : Parser (Expr Span)}
variable {stmt stmt' : Parser (Stmt Span)}

/-- The loop over statements.  Every round takes a token, since a statement has one. -/
theorem agree_statements (hstmt : Agree sure k stmt stmt') (hsound : Sound stmt .statement)
    (h : k ≤ rounds) (h' : k ≤ rounds') :
    Agree sure k (statements stmt rounds) (statements stmt' rounds') := by
  induction k generalizing rounds rounds' with
  | zero => exact agree_zero
  | succ k ih =>
    obtain ⟨rounds, rfl⟩ := Nat.exists_eq_add_of_le' h
    obtain ⟨rounds', rfl⟩ := Nat.exists_eq_add_of_le' h'
    refine agree_peek_bind fun s hs => ?_
    split
    · next hstop =>
      have hnone : s.here.lexeme.beginsPrimary = false := by
        simp only [Bool.or_eq_true, Token.isSymbol_iff, Token.isEnd_iff] at hstop
        rcases hstop with hlex | hlex <;> rw [hlex] <;> rfl
      rw [sure_eq_zero hnone]
      exact foretells_pure []
    · have hprogress := progresses_of_sound hsound fun _ => rfl
      have hmore := ih (hstmt.mono (Nat.le_succ k)) (Nat.le_add_left k rounds)
        (Nat.le_add_left k rounds')
      refine hstmt.bind_of_progresses hprogress (fun first => ?_) hs
      exact hmore.loosen.bind fun others => agree_pure (first :: others)

/-- What stands after the opening brace of a block. -/
theorem agree_blockRest (hstmt : Agree sure k stmt stmt') (hsound : Sound stmt .statement)
    (h : k ≤ rounds) (h' : k ≤ rounds') :
    Agree sure k
      (statements stmt rounds >>= fun body => expect .rightBrace .closeBlock >>= fun _ => pure body)
      (statements stmt' rounds' >>= fun body =>
        expect .rightBrace .closeBlock >>= fun _ => pure body) :=
  (agree_statements hstmt hsound h h').bind fun body =>
    (agree_expect _ (by simp)).loosen.bind fun _ => agree_pure body

theorem agree_block (hstmt : Agree sure k stmt stmt') (hsound : Sound stmt .statement)
    (h : k ≤ rounds) (h' : k ≤ rounds') :
    Agree unsure k (block rounds stmt) (block rounds' stmt') :=
  (agree_expect _ (by simp)).loosen.bind fun _ => (agree_blockRest hstmt hsound h h').loosen

/-- A block passes its opening brace, and a key after it. -/
theorem foretells_block {s : TokenStream} (hs : s.Short (k + 1))
    (hbrace : s.here.lexeme = .symbol .leftBrace) (hstmt : Agree sure k stmt stmt')
    (hsound : Sound stmt .statement) (h : k ≤ rounds) (h' : k ≤ rounds') :
    Foretells (sure s) (block rounds stmt) (block rounds' stmt') s := by
  have hend := Token.not_isEnd_of_lexeme hbrace (by simp)
  have hrest := agree_blockRest hstmt hsound h h' (hs.advance hend)
  have htake := (foretells_advance_bind (f := fun _ => _) (g := fun _ => _) hs.closed hend hrest)
  have hexpect : ∀ t : TokenStream, t.here = s.here →
      expect .leftBrace .openBlock t = advance t := by
    intro t ht
    rw [expect, peek_bind, if_pos (Token.isSymbol_iff.mpr (ht ▸ hbrace))]
  have hkey : sure s ≤ sure s.advance + 1 :=
    Nat.le_trans (sure_le_atKey_advance hs.closed hend) (Nat.succ_le_succ atKey_le_sure)
  refine (htake.mono hkey).congr_here ?_ fun t ht => ?_
  · exact bind_congr_at (hexpect s rfl) fun _ _ _ => rfl
  · exact bind_congr_at (hexpect t ht) fun _ _ _ => rfl

theorem agree_branch (hstmt : Agree sure k stmt stmt') (hsound : Sound stmt .statement)
    (h : k ≤ rounds) (h' : k ≤ rounds') :
    Agree unsure k (branch rounds stmt) (branch rounds' stmt') := by
  refine agree_peek_bind fun s hs => ?_
  split
  · exact agree_block hstmt hsound h h' hs
  · exact hstmt.loosen.bind (fun single => agree_pure [single]) hs

theorem agree_condition (hexpr : Agree sure k expr expr') :
    Agree unsure k (condition expr) (condition expr') := by
  refine (agree_expect _ (by simp)).loosen.bind fun _ => ?_
  refine hexpr.loosen.bind fun value => ?_
  exact (agree_expect _ (by simp)).loosen.bind fun _ => agree_pure value

/-- What follows a keyword need only agree on shorter streams. -/
theorem agree_expectKeyword_bind {word : Keyword} {f g : Token → Parser β}
    (h : ∀ t, Agree unsure k (f t) (g t)) :
    Agree (atLexeme (.keyword word)) (k + 1) (expectKeyword word >>= f)
      (expectKeyword word >>= g) :=
  (agree_expectKeyword word).bind_of_progresses progresses_expectKeyword h

theorem agree_letStatement (hexpr : Agree sure k expr expr') :
    Agree unsure (k + 1) (letStatement expr) (letStatement expr') := by
  refine (agree_expectKeyword_bind fun _ => ?_).loosen
  refine (agree_identifier (by simp)).bind fun named => ?_
  refine (agree_accept _).bind fun found => agree_ite ?_ (agree_pure _)
  exact hexpr.loosen.bind fun value => agree_pure _

theorem agree_functionStatement (hstmt : Agree sure k stmt stmt') (hsound : Sound stmt .statement)
    (h : k ≤ rounds) (h' : k ≤ rounds') :
    Agree (atLexeme (.keyword .function)) (k + 1) (functionStatement rounds stmt)
      (functionStatement rounds' stmt') := by
  refine agree_expectKeyword_bind fun _ => ?_
  refine (agree_identifier (by simp)).bind fun named => ?_
  exact (agree_functionRest (agree_block hstmt hsound h h') h h').bind fun code => agree_pure _

theorem agree_ifStatement (hexpr : Agree sure k expr expr') (hstmt : Agree sure k stmt stmt')
    (hsound : Sound stmt .statement) (h : k ≤ rounds) (h' : k ≤ rounds') :
    Agree unsure (k + 1) (ifStatement rounds expr stmt) (ifStatement rounds' expr' stmt') := by
  have hbranch := agree_branch hstmt hsound h h'
  refine (agree_expectKeyword_bind fun _ => ?_).loosen
  refine (agree_condition hexpr).bind fun test => ?_
  refine hbranch.bind fun yes => ?_
  refine (agree_acceptKeyword _).bind fun found => agree_ite ?_ (agree_pure _)
  exact hbranch.bind fun no => agree_pure _

theorem agree_whileStatement (hexpr : Agree sure k expr expr') (hstmt : Agree sure k stmt stmt')
    (hsound : Sound stmt .statement) (h : k ≤ rounds) (h' : k ≤ rounds') :
    Agree unsure (k + 1) (whileStatement rounds expr stmt)
      (whileStatement rounds' expr' stmt') := by
  refine (agree_expectKeyword_bind fun _ => ?_).loosen
  refine (agree_condition hexpr).bind fun test => ?_
  exact (agree_branch hstmt hsound h h').bind fun body => agree_pure _

theorem agree_forStatement (hexpr : Agree sure k expr expr') (hstmt : Agree sure k stmt stmt')
    (hsound : Sound stmt .statement) (h : k ≤ rounds) (h' : k ≤ rounds') :
    Agree unsure (k + 1) (forStatement rounds expr stmt) (forStatement rounds' expr' stmt') := by
  refine (agree_expectKeyword_bind fun _ => ?_).loosen
  refine (agree_expect _ (by simp)).loosen.bind fun _ => ?_
  refine (agree_identifier (by simp)).bind fun named => ?_
  refine (agree_expectKeyword _).loosen.bind fun _ => ?_
  refine hexpr.loosen.bind fun value => ?_
  refine (agree_expect _ (by simp)).loosen.bind fun _ => ?_
  exact (agree_branch hstmt hsound h h').bind fun body => agree_pure _

theorem agree_tryStatement (hstmt : Agree sure k stmt stmt') (hsound : Sound stmt .statement)
    (h : k ≤ rounds) (h' : k ≤ rounds') :
    Agree unsure (k + 1) (tryStatement rounds stmt) (tryStatement rounds' stmt') := by
  have hblock := agree_block hstmt hsound h h'
  refine (agree_expectKeyword_bind fun _ => ?_).loosen
  refine hblock.bind fun body => ?_
  refine (agree_expectKeyword _).loosen.bind fun _ => ?_
  refine (agree_expect _ (by simp)).loosen.bind fun _ => ?_
  refine (agree_identifier (by simp)).bind fun named => ?_
  refine (agree_expect _ (by simp)).loosen.bind fun _ => ?_
  exact hblock.bind fun handler => agree_pure _

theorem agree_throwStatement (hexpr : Agree sure k expr expr') :
    Agree unsure (k + 1) (throwStatement expr) (throwStatement expr') := by
  refine (agree_expectKeyword_bind fun _ => ?_).loosen
  exact hexpr.loosen.bind fun value => agree_pure _

theorem agree_returnStatement (hexpr : Agree sure k expr expr') :
    Agree unsure (k + 1) (returnStatement expr) (returnStatement expr') := by
  refine (agree_expectKeyword_bind fun _ => ?_).loosen
  refine agree_peek_bind fun s hs => ?_
  split
  · exact foretells_pure _
  · exact hexpr.loosen.bind (fun value => agree_pure _) hs

theorem agree_expressionStatement (hexpr : Agree sure k expr expr') :
    Agree sure k (expressionStatement expr) (expressionStatement expr') :=
  hexpr.bind fun _ => agree_pure _

/-- Whether a map begins is decided by the next token if that is no key, and otherwise by one more,
which then is passed or stopped at. -/
theorem foretells_startsMap_bind {j : Nat} {f g : Bool → Parser β} {s : TokenStream} (hone : 1 ≤ j)
    (hkey : (s.peekNth 1).key?.isSome = true → 2 ≤ j) (h : ∀ b, Foretells j (f b) (g b) s) :
    Foretells j (startsMap >>= f) (startsMap >>= g) s := by
  refine foretells_peekNth_bind (f := fun first => peekNth 2 >>= fun second =>
    f (first.key?.isSome && second.isSymbol .colon)) (g := fun first => peekNth 2 >>= fun second =>
    g (first.key?.isSome && second.isSymbol .colon)) hone ?_
  cases hfirst : (s.peekNth 1).key?.isSome with
  | true => exact foretells_peekNth_bind (hkey hfirst) (h _)
  | false => exact h false

theorem agree_statementForm (hexpr : Agree sure (k + 1) expr expr')
    (hstmt : Agree sure k stmt stmt') (hsound : Sound stmt .statement) (h : k ≤ rounds)
    (h' : k ≤ rounds') :
    Agree sure (k + 1) (statementForm rounds expr stmt) (statementForm rounds' expr' stmt') := by
  have hshort := hexpr.mono (Nat.le_succ k)
  have hother := agree_expressionStatement hexpr
  refine agree_peek_bind fun s hs => ?_
  cases hlex : s.here.lexeme with
  | keyword word =>
    cases word
    case function =>
      have hone : 1 ≤ sure s := one_le_sure (by rw [hlex]; rfl)
      refine foretells_peekNth_bind hone ?_
      split
      · refine (agree_functionStatement hstmt hsound h h' hs).mono ?_
        rw [atLexeme, if_pos hlex]
        exact sure_le_one (by simp [hlex])
      · exact hother hs
    case trueWord | falseWord | undefined | elseWord | inWord | catchWord => exact hother hs
    all_goals rw [sure_eq_zero (by rw [hlex]; rfl)]
    case letWord => exact agree_letStatement hshort hs
    case ifWord => exact agree_ifStatement hshort hstmt hsound h h' hs
    case whileWord => exact agree_whileStatement hshort hstmt hsound h h' hs
    case forWord => exact agree_forStatement hshort hstmt hsound h h' hs
    case tryWord => exact agree_tryStatement hstmt hsound h h' hs
    case throwWord => exact agree_throwStatement hshort hs
    case returnWord => exact agree_returnStatement hshort hs
    case breakWord | continueWord =>
      refine (foretells_take hs hlex (by simp) ?_).mono (Nat.zero_le _)
      exact agree_pure _
  | symbol mark =>
    cases mark
    case leftBrace =>
      have hone : 1 ≤ sure s := one_le_sure (by rw [hlex]; rfl)
      refine foretells_startsMap_bind hone (fun hkey => by simp [sure, hlex, hkey]) fun maps => ?_
      split
      · exact hother hs
      · exact (foretells_block hs hlex hstmt hsound h h').bind fun body _ _ _ _ =>
          foretells_pure _
    all_goals exact hother hs
  | identifier _ | number _ | quoted _ | endOfInput => exact hother hs

theorem agree_placedStatement (hexpr : Agree sure (k + 1) expr expr')
    (hstmt : Agree sure k stmt stmt') (hsoundExpr : Sound expr .expression)
    (hsound : Sound stmt .statement) (h : k ≤ rounds) (h' : k ≤ rounds') :
    Agree sure (k + 1) (placedStatement rounds expr stmt)
      (placedStatement rounds' expr' stmt') := by
  have hprogress := progresses_of_sound (statementForm_sound hsoundExpr hsound rounds) fun _ => rfl
  refine agree_peek_bind fun s hs => ?_
  refine agree_bind_spanFrom s.here.span.start (agree_statementForm hexpr hstmt hsound h h')
    hprogress (fun form span => ?_) hs
  exact (agree_accept _).bind fun _ => agree_pure (form span)

end Statements

/-- **The knot.**  On a stream with fewer than `k` tokens ahead, all depths from some point on that
grows with `k` do the same.  An expression that is a statement starts at the token where the
statement starts, so a statement needs one level more. -/
theorem agree_expression_statement (k : Nat) :
    (∀ d d', 2 * k ≤ d → 2 * k ≤ d' → Agree sure k (expression d) (expression d')) ∧
      ∀ d d', 2 * k + 1 ≤ d → 2 * k + 1 ≤ d' → Agree sure k (statement d) (statement d') := by
  induction k with
  | zero => exact ⟨fun _ _ _ _ => agree_zero, fun _ _ _ _ => agree_zero⟩
  | succ k ih =>
    obtain ⟨ihexpr, ihstmt⟩ := ih
    have hexpr : ∀ d d', 2 * (k + 1) ≤ d → 2 * (k + 1) ≤ d' →
        Agree sure (k + 1) (expression d) (expression d') := by
      intro d d' hd hd'
      obtain ⟨d, rfl⟩ := Nat.exists_eq_add_of_le' (Nat.le_trans (by omega : 1 ≤ _) hd)
      obtain ⟨d', rfl⟩ := Nat.exists_eq_add_of_le' (Nat.le_trans (by omega : 1 ≤ _) hd')
      have hsound := (expression_statement_sound d).2
      have hblock := agree_block (ihstmt d d' (by omega) (by omega)) hsound
        (by omega : k ≤ d) (by omega : k ≤ d')
      exact agree_assignment (ihexpr d d' (by omega) (by omega)) hblock (block_sound hsound d)
        (by omega) (by omega)
    refine ⟨hexpr, ?_⟩
    intro d d' hd hd'
    obtain ⟨d, rfl⟩ := Nat.exists_eq_add_of_le' (Nat.le_trans (by omega : 1 ≤ _) hd)
    obtain ⟨d', rfl⟩ := Nat.exists_eq_add_of_le' (Nat.le_trans (by omega : 1 ≤ _) hd')
    obtain ⟨hsoundExpr, hsound⟩ := expression_statement_sound d
    exact agree_placedStatement (hexpr d d' (by omega) (by omega))
      (ihstmt d d' (by omega) (by omega)) hsoundExpr hsound (by omega) (by omega)

end Parser

/-! ## The next statement -/

namespace TokenStream

open Script.Parser

variable {s s' t : TokenStream} {e : ParseError} {d : Nat}

theorem Passes.position_eq {ts : List Token} (h : s.Passes ts s') :
    s'.position = s.position + ts.length := by
  rw [position, position, h.behind_eq, List.length_append, List.length_reverse, Nat.add_comm]

/-- What is seen by the attempt to parse a statement decides how it ends, at every depth that is
large enough. -/
theorem exists_ends_parseNext (hs : s.Closed) (hd : s.depthBound ≤ d) :
    ∃ ts s' r, s.Passes ts s' ∧ s.parseNext = (r, s') ∧ Genuine r ∧
      Ends (statement d) ts s'.here r := by
  unfold depthBound at hd
  have hagree := (agree_expression_statement (s.remaining + 1)).2 s.depthBound d
    (by unfold depthBound; omega) (by omega)
  obtain ⟨ts, s', r, -, hpass, hrun, hgenuine, hends⟩ := hagree ⟨hs, Nat.lt_succ_self _⟩
  refine ⟨ts, s', r, hpass, ?_, hgenuine, hends⟩
  unfold parseNext
  rw [hrun]
  cases r <;> rfl

theorem parseNext_eq_iff {r : Except ParseError (Stmt Span)} :
    s.parseNext = (r, s') ↔ statement s.depthBound s = stopAt s' r := by
  unfold parseNext
  cases statement s.depthBound s <;> cases r <;> simp [stopAt]

/-- **More depth changes nothing.** -/
theorem statement_eq_of_le (hs : s.Closed) (hd : s.depthBound ≤ d) :
    statement d s = statement s.depthBound s := by
  obtain ⟨ts, s', r, hpass, hparse, -, hends⟩ := exists_ends_parseNext hs hd
  rw [hends hpass rfl, parseNext_eq_iff.mp hparse]

/-- **No statement is too deep.** -/
theorem cause_ne_tooDeep (hs : s.Closed) (h : s.parseNext = (.error e, s')) :
    e.cause ≠ .tooDeep := by
  obtain ⟨ts, s₁, r, -, hparse, hgenuine, -⟩ := exists_ends_parseNext hs (Nat.le_refl s.depthBound)
  obtain ⟨rfl, -⟩ := Prod.mk.inj (hparse.symm.trans h)
  exact hgenuine

/-- The same tokens, from the current one to one further on. -/
theorem exists_passes_of_getElem? {ts : List Token} (hpass : s.Passes ts s')
    (hsame : ∀ n ≤ ts.length, t.rest[n]? = s.rest[n]?) :
    ∃ t', t.Passes ts t' ∧ t'.here = s'.here := by
  have hfront : t.rest.take (ts.length + 1) = ts ++ [s'.here] := by
    have htake : t.rest.take (ts.length + 1) = s.rest.take (ts.length + 1) := by
      refine List.ext_getElem? fun n => ?_
      rcases Nat.lt_or_ge n (ts.length + 1) with hless | hge
      · rw [List.getElem?_take_of_lt hless, List.getElem?_take_of_lt hless]
        exact hsame n (Nat.le_of_lt_succ hless)
      · rw [List.getElem?_eq_none (by simp; omega), List.getElem?_eq_none (by simp; omega)]
    rw [htake, hpass.rest_eq, List.take_length_add_append]
    rfl
  refine ⟨⟨ts.reverse ++ t.behind, s'.here, t.rest.drop (ts.length + 1)⟩, ⟨?_, rfl⟩, rfl⟩
  have hsplit := List.take_append_drop (ts.length + 1) t.rest
  rw [hfront, List.append_assoc] at hsplit
  exact hsplit.symm

/-- **One token past a statement decides everything.**  Two streams stand at the same position and
have the same tokens from there to where the attempt to parse a statement stops in the first, the
token at which it stops included.  Then the attempt has the same result in the second, a statement
or a failure, and stops at the same position; the tokens themselves stay as they are. -/
theorem parseNext_of_same_until_stop (hs : s.Closed) (ht : t.Closed)
    (hposition : t.position = s.position)
    (hsame : ∀ n, s.position ≤ n → n ≤ s.parseNext.2.position → t.toList[n]? = s.toList[n]?) :
    t.parseNext.1 = s.parseNext.1 ∧ t.parseNext.2.position = s.parseNext.2.position ∧
      t.parseNext.2.toList = t.toList := by
  obtain ⟨ts, s', r, hpass, hparse, -, hends⟩ :=
    exists_ends_parseNext hs (Nat.le_max_left s.depthBound t.depthBound)
  rw [hparse] at hsame ⊢
  have hrest : ∀ n ≤ ts.length, t.rest[n]? = s.rest[n]? := by
    intro n hn
    rw [← getElem?_toList, ← getElem?_toList, hposition]
    exact hsame _ (Nat.le_add_right _ _) (by rw [hpass.position_eq]; omega)
  obtain ⟨t', hpass', hhere⟩ := exists_passes_of_getElem? hpass hrest
  have hparse' : t.parseNext = (r, t') := by
    rw [parseNext_eq_iff, ← statement_eq_of_le ht (Nat.le_max_right s.depthBound t.depthBound)]
    exact hends hpass' hhere
  rw [hparse']
  refine ⟨rfl, ?_, hpass'.toList_eq⟩
  rw [hpass'.position_eq, hpass.position_eq, hposition]

/-- A block and a name after it, as in `{ x; } y`. -/
def blockAndName : List Token :=
  [⟨.symbol .leftBrace, ⟨0, 1⟩⟩, ⟨.identifier "x", ⟨2, 3⟩⟩, ⟨.symbol .semicolon, ⟨3, 4⟩⟩,
    ⟨.symbol .rightBrace, ⟨5, 6⟩⟩, ⟨.identifier "y", ⟨7, 8⟩⟩]

/-- The block is decided by the name after it, whatever is done with that name. -/
theorem parseNext_of_same_until_stop_block :
    (ofTokens blockAndName (.endAt 8)).parseNext.2.position = 4 ∧
      (ofTokens (blockAndName ++ [⟨.symbol .assign, ⟨9, 10⟩⟩]) (.endAt 10)).parseNext.1 =
        (ofTokens blockAndName (.endAt 8)).parseNext.1 ∧
      (ofTokens (blockAndName ++ [⟨.symbol .assign, ⟨9, 10⟩⟩]) (.endAt 10)).parseNext.2.position =
        4 := by
  have hstop : (ofTokens blockAndName (.endAt 8)).parseNext.2.position = 4 := by rfl
  have hsame : ∀ n, (ofTokens blockAndName (.endAt 8)).position ≤ n →
      n ≤ (ofTokens blockAndName (.endAt 8)).parseNext.2.position →
      (ofTokens (blockAndName ++ [⟨.symbol .assign, ⟨9, 10⟩⟩]) (.endAt 10)).toList[n]? =
        (ofTokens blockAndName (.endAt 8)).toList[n]? := by
    intro n _ hn
    rw [hstop] at hn
    rw [toList_ofTokens, toList_ofTokens, List.append_assoc,
      List.getElem?_append_left (Nat.lt_succ_of_le hn),
      List.getElem?_append_left (Nat.lt_succ_of_le hn)]
  have hwindow := parseNext_of_same_until_stop (ofTokens_closed blockAndName 8)
    (ofTokens_closed (blockAndName ++ [⟨.symbol .assign, ⟨9, 10⟩⟩]) 10) rfl hsame
  exact ⟨hstop, hwindow.1, hwindow.2.1.trans hstop⟩

end TokenStream

end Script
