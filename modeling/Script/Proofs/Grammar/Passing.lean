import Script.Token.Stream

/-!
# Moving through a token stream

Whether a parser did the right thing is a statement about the tokens that it moved past.  `Passes`
says that one stream is another one after it has moved past given tokens: nothing is skipped, read
twice or put in another order.

## Main definitions

* `TokenStream.rest`: the tokens from the current one on.
* `TokenStream.Passes`: a stream, the tokens it moves past, and the stream after them.
* `TokenStream.Closed`: the last token is an end mark, which nothing moves past.
-/

namespace Script.TokenStream

/-- The tokens from the current one on. -/
def rest (s : TokenStream) : List Token := s.here :: s.ahead

/-- The stream `s'` is `s` after it has moved past the tokens `ts`. -/
structure Passes (s : TokenStream) (ts : List Token) (s' : TokenStream) : Prop where
  rest_eq : s.rest = ts ++ s'.rest
  behind_eq : s'.behind = ts.reverse ++ s.behind

/-- The last token of the stream is an end mark. -/
def Closed (s : TokenStream) : Prop := ∃ mark, s.rest.getLast? = some mark ∧ mark.isEnd = true

namespace Passes

variable {s t u : TokenStream} {ts us : List Token} {tok : Token}

theorem refl (s : TokenStream) : s.Passes [] s := ⟨rfl, rfl⟩

theorem trans (h₁ : s.Passes ts t) (h₂ : t.Passes us u) : s.Passes (ts ++ us) u := by
  refine ⟨?_, ?_⟩
  · rw [h₁.rest_eq, h₂.rest_eq, List.append_assoc]
  · rw [h₂.behind_eq, h₁.behind_eq, List.reverse_append, List.append_assoc]

/-- A stream that moves past two stretches of tokens stands between them in the meantime. -/
theorem split (h : s.Passes (ts ++ us) u) : ∃ t, s.Passes ts t ∧ t.Passes us u := by
  obtain ⟨tok, more, hmid⟩ : ∃ tok more, us ++ u.rest = tok :: more := by
    cases us with
    | nil => exact ⟨u.here, u.ahead, rfl⟩
    | cons tok us => exact ⟨tok, us ++ u.rest, rfl⟩
  refine ⟨⟨ts.reverse ++ s.behind, tok, more⟩, ⟨?_, rfl⟩, ⟨hmid.symm, ?_⟩⟩
  · rw [h.rest_eq, List.append_assoc, hmid, rest]
  · rw [h.behind_eq, List.reverse_append, List.append_assoc]

theorem here_eq (h : s.Passes (tok :: ts) u) : s.here = tok := by
  have hrest := h.rest_eq
  simp only [rest, List.cons_append, List.cons.injEq] at hrest
  exact hrest.1

/-- The current token is the first of those that will be passed, or the one after them. -/
theorem here_eq_headD (h : s.Passes ts u) : s.here = ts.headD u.here := by
  have hhead : s.rest.head? = (ts ++ u.rest).head? := congrArg List.head? h.rest_eq
  cases ts <;> simpa [rest] using hhead

/-- Looking ahead shows the tokens that will be passed. -/
theorem peekNth_eq {n : Nat} (h : s.Passes ts u) (ht : ts[n]? = some tok) :
    s.peekNth n = tok := by
  have hrest : s.rest[n]? = some tok := by
    rw [h.rest_eq]
    exact List.getElem?_append_left (List.getElem?_eq_some_iff.mp ht).1 ▸ ht
  cases n with
  | zero => simpa [rest, peekNth] using hrest
  | succ n =>
    simp only [rest, List.getElem?_cons_succ] at hrest
    simp [peekNth, List.getD, hrest]

/-- A stream does not depend on the way to it. -/
theorem eq_of_nil (h : s.Passes [] u) : s = u := by
  obtain ⟨hrest, hbehind⟩ := h
  cases s
  cases u
  simp_all [rest]

/-- One step past a token that is no end mark. -/
theorem advance (h : s.Passes (tok :: ts) u) (htok : tok.isEnd = false) :
    s.advance.Passes ts u := by
  have happ : s.Passes ([tok] ++ ts) u := h
  obtain ⟨t, hst, htu⟩ := split happ
  have hstep : s.advance = t := by
    obtain ⟨behind, here, ahead⟩ := s
    obtain ⟨hrest, hbehind⟩ := hst
    simp only [rest, List.singleton_append, List.cons.injEq] at hrest
    obtain ⟨rfl, rfl⟩ := hrest
    cases t
    simp_all [TokenStream.advance]
  rw [hstep]
  exact htu

/-- The end mark of a closed stream stays ahead. -/
theorem closed (h : s.Passes ts u) (hs : s.Closed) : u.Closed := by
  obtain ⟨mark, hmark, hend⟩ := hs
  refine ⟨mark, ?_, hend⟩
  rw [← hmark, h.rest_eq, List.getLast?_append]
  cases hlast : u.rest.getLast? with
  | none => simp [rest] at hlast
  | some _ => rfl

end Passes

/-- Moving on in a closed stream passes the current token, unless it is an end mark. -/
theorem passes_advance {s : TokenStream} (hs : s.Closed) (hhere : s.here.isEnd = false) :
    s.Passes [s.here] s.advance := by
  obtain ⟨behind, here, ahead⟩ := s
  cases ahead with
  | nil => simp_all [Closed, rest]
  | cons tok ahead =>
    refine ⟨?_, ?_⟩ <;> simp_all [TokenStream.advance, rest]

/-! ### Streams of given tokens -/

theorem toList_ofTokens (ts : List Token) (last : Token) :
    (ofTokens ts last).toList = ts ++ [last] := by
  cases ts <;> rfl

theorem ofTokens_passes (ts : List Token) (last : Token) :
    (ofTokens ts last).Passes ts ⟨ts.reverse, last, []⟩ := by
  cases ts <;> exact ⟨rfl, by simp [ofTokens]⟩

theorem ofTokens_closed (ts : List Token) (n : Nat) : (ofTokens ts (.endAt n)).Closed := by
  refine ⟨.endAt n, ?_, rfl⟩
  rw [(ofTokens_passes ts (.endAt n)).rest_eq]
  simp [rest]

/-- The tokens of a source text end with an end mark. -/
theorem ofSource_closed {source : String} {s : TokenStream} (h : ofSource source = .ok s) :
    s.Closed := by
  unfold ofSource at h
  cases hscan : Lexer.scan source.toList with
  | error e =>
    rw [hscan] at h
    cases h
  | ok ts =>
    rw [hscan] at h
    cases h
    exact ofTokens_closed ts _

end Script.TokenStream
