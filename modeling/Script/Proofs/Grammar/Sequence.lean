import Script.Proofs.Grammar.Completeness
import Script.Proofs.Grammar.Program

/-!
# Statements one after the other

A program is read as one statement after the other, and where a statement ends may depend on the
token that follows it.  After a semicolon it does not, as long as what follows is neither another
semicolon nor an `else`.  No statement begins with these two, so programs that end with a semicolon
can be put one after the other.

## Main definitions

* `lastLexeme?`: the last lexeme of some tokens.
* `Phrase.Closes`: expressions and blocks do not end with a semicolon.

## Main results

* `Derives.before`: a statement that ends with a semicolon may be followed by anything else.
* `Derives.statements_append`: programs one after the other.
* `TokenStream.derives_of_program`, `TokenStream.program_of_derives`: the program of a stream in
  terms of the grammar.
-/

namespace Script

/-- The last lexeme of some tokens, if there are any. -/
def lastLexeme? (ts : List Token) : Option Lexeme := ts.getLast?.map Token.lexeme

theorem lastLexeme?_append (ts : List Token) {us : List Token} (h : us ≠ []) :
    lastLexeme? (ts ++ us) = lastLexeme? us := by
  unfold lastLexeme?
  rw [List.getLast?_append]
  cases hlast : us.getLast? with
  | none => exact absurd (List.getLast?_eq_none_iff.mp hlast) h
  | some t => rfl

namespace Grammar

/-! ## How phrases end -/

/-- The tokens end with a semicolon. -/
def EndsSemicolon (ts : List Token) : Prop := lastLexeme? ts = some (.symbol .semicolon)

instance (ts : List Token) : Decidable (EndsSemicolon ts) :=
  inferInstanceAs (Decidable (lastLexeme? ts = some (.symbol .semicolon)))

/-- The tokens end, and not with a semicolon. -/
def EndsOtherwise (ts : List Token) : Prop := ts ≠ [] ∧ ¬ EndsSemicolon ts

namespace EndsOtherwise

variable {ts us : List Token} {t : Token} {l : Lexeme}

theorem append (ts : List Token) (h : EndsOtherwise us) : EndsOtherwise (ts ++ us) := by
  obtain ⟨hne, hlast⟩ := h
  refine ⟨by simp [hne], ?_⟩
  unfold EndsSemicolon
  rwa [lastLexeme?_append ts hne]

theorem cons (t : Token) (h : EndsOtherwise us) : EndsOtherwise (t :: us) := h.append [t]

theorem single (ht : t.lexeme = l) (hl : l ≠ .symbol .semicolon) : EndsOtherwise [t] := by
  subst ht
  refine ⟨by simp, ?_⟩
  intro hlast
  exact hl (Option.some.inj hlast)

theorem concat (ts : List Token) (ht : t.lexeme = l) (hl : l ≠ .symbol .semicolon) :
    EndsOtherwise (ts ++ [t]) :=
  (single ht hl).append ts

end EndsOtherwise

/-- What is known about the last token of a phrase. -/
def Phrase.Closes : Phrase → List Token → Prop
  | expression _, ts | operation _ _, ts | applied _, ts | primary _, ts | code _ _, ts
  | block _, ts => EndsOtherwise ts
  | _, _ => True

variable {phrase : Phrase} {ts us : List Token} {next next' : Token}

/-- Expressions, functions and blocks do not end with a semicolon. -/
theorem Derives.closes (h : Derives phrase ts next) : phrase.Closes ts := by
  induction h with
  | assign _ _ _ _ _ ih => exact (ih.cons _).append _
  | noAssign _ _ _ ih => exact ih
  | binary _ _ _ _ _ ih => exact (ih.cons _).append _
  | tighter _ _ _ ih => exact ih
  | unary _ _ ih => exact ih.cons _
  | noUnary _ _ ih => exact ih
  | call _ _ _ hright => exact ((EndsOtherwise.concat _ hright (by simp)).cons _).append _
  | index _ _ _ hright => exact ((EndsOtherwise.concat _ hright (by simp)).cons _).append _
  | field _ _ hmember => exact ((EndsOtherwise.single hmember (by simp)).cons _).append _
  | notApplied _ ih => exact ih
  | number ht _ | text ht | trueWord ht | falseWord ht | undefined ht | var ht =>
    exact .single ht (by simp)
  | parens _ _ hright | array _ _ hright | map _ _ hright | block _ _ hright =>
    exact (EndsOtherwise.concat _ hright (by simp)).cons _
  | lambda _ _ ih => exact ih.cons _
  | namedLambda _ _ _ ih => exact (ih.cons _).cons _
  | code _ _ _ _ _ ih => exact ((ih.cons _).append _).cons _
  | noItems | oneItem | moreItems | noEntries | oneEntry | moreEntries | noParams | oneParam
  | moreParams | noStatements | moreStatements | blockBranch | singleBranch | bare | ended | letVar
  | letInit | function | ifThen | ifElse | whileLoop | forEach | tryCatch | throw | ret | retValue
  | brk | cont | blockForm | exprForm => trivial

/-! ## What may follow a semicolon -/

/-- The token neither ends a statement again nor goes on with one. -/
def StartsAnew (t : Token) : Prop :=
  t.lexeme ≠ .symbol .semicolon ∧ t.lexeme ≠ .keyword .elseWord

theorem startsAnew_of_endsBlock (h : EndsBlock next) : StartsAnew next := by
  rcases h with h | h
  · simp [StartsAnew, h]
  · simp [StartsAnew, h]

theorem startsAnew_of_beginsStatement (h : next.lexeme.beginsStatement = true) :
    StartsAnew next := by
  constructor
  · intro hmark
    rw [hmark] at h
    exact absurd h (by decide)
  · intro hword
    rw [hword] at h
    exact absurd h (by decide)

/-- What follows a program starts anew, and so does the program itself. -/
theorem Derives.startsAnew {body : List (Stmt Span)} (h : Derives (.statements body) ts next) :
    StartsAnew (ts.headD next) := by
  cases h with
  | noStatements hend => exact startsAnew_of_endsBlock hend
  | moreStatements h _ =>
    obtain ⟨t, us, rfl, ht⟩ := h.opens.first
    exact startsAnew_of_beginsStatement ht

/-- What is known about the token after a phrase that ends with a semicolon. -/
def Phrase.Before : Phrase → List Token → Prop
  | branch body, ts => EndsSemicolon ts →
      ∀ next, StartsAnew next → Derives (.branch body) ts next
  | form build, ts => EndsSemicolon ts → ∀ next, StartsAnew next → Derives (.form build) ts next
  | statement s, ts => EndsSemicolon ts →
      ∀ next, StartsAnew next → Derives (.statement s) ts next
  | _, _ => True

/-- If tokens end with a semicolon, so do the last of them. -/
theorem EndsSemicolon.of_append (hne : us ≠ []) (h : EndsSemicolon (ts ++ us)) :
    EndsSemicolon us := by
  unfold EndsSemicolon at h
  rwa [lastLexeme?_append ts hne] at h

theorem EndsSemicolon.of_cons {t : Token} (hne : us ≠ []) (h : EndsSemicolon (t :: us)) :
    EndsSemicolon us := by
  have happ : EndsSemicolon ([t] ++ us) := h
  exact happ.of_append hne

/-- **A statement that ends with a semicolon may be followed by whatever starts anew.** -/
theorem Derives.before (h : Derives phrase ts next) : phrase.Before ts := by
  induction h with
  | blockBranch h => exact fun hsemi => absurd hsemi h.closes.2
  | singleBranch _ hopen ih =>
    exact fun hsemi next hnext => .singleBranch (ih hsemi next hnext) hopen
  | bare _ _ ih => exact fun hsemi next hnext => .bare (ih hsemi next hnext) hnext.1
  | ended h hmark => exact fun _ next _ => .ended h hmark
  | letVar _ hlabel =>
    exact fun hsemi => absurd hsemi ((EndsOtherwise.single hlabel (by simp)).cons _).2
  | letInit _ _ _ h => exact fun hsemi => absurd hsemi (((h.closes.cons _).cons _).cons _).2
  | function _ _ h => exact fun hsemi => absurd hsemi ((h.closes.cons _).cons _).2
  | ifThen hword hleft htest hright hyes _ _ ih =>
    intro hsemi next hnext
    have hbranch := hyes.ne_nil rfl
    have hlast :=
      (((hsemi.of_cons (by simp)).of_cons (by simp)).of_append (by simp)).of_cons hbranch
    exact .ifThen hword hleft htest hright (ih hlast next hnext) hnext.2
  | ifElse hword hleft htest hright hyes hother hno _ _ ih =>
    intro hsemi next hnext
    have hbranch := hno.ne_nil rfl
    have hyesno := ((hsemi.of_cons (by simp)).of_cons (by simp)).of_append (by simp)
    have hlast := ((hyesno.of_cons (by simp)).of_append (by simp)).of_cons hbranch
    exact .ifElse hword hleft htest hright hyes hother (ih hlast next hnext)
  | whileLoop hword hleft htest hright hbody _ ih =>
    intro hsemi next hnext
    have hbranch := hbody.ne_nil rfl
    have hlast :=
      (((hsemi.of_cons (by simp)).of_cons (by simp)).of_append (by simp)).of_cons hbranch
    exact .whileLoop hword hleft htest hright (ih hlast next hnext)
  | forEach hword hleft hlabel hwithin h hright hbody _ ih =>
    intro hsemi next hnext
    have hbranch := hbody.ne_nil rfl
    have hhead := ((hsemi.of_cons (by simp)).of_cons (by simp)).of_cons (by simp)
    have hlast := ((hhead.of_cons (by simp)).of_append (by simp)).of_cons hbranch
    exact .forEach hword hleft hlabel hwithin h hright (ih hlast next hnext)
  | tryCatch _ _ _ _ _ _ hhandler =>
    intro hsemi
    exact absurd hsemi ((((((hhandler.closes.cons _).cons _).cons _).cons _).append _).cons _).2
  | throw _ h => exact fun hsemi => absurd hsemi (h.closes.cons _).2
  | ret hword _ | brk hword | cont hword =>
    exact fun hsemi => absurd hsemi (EndsOtherwise.single hword (by simp)).2
  | retValue _ h => exact fun hsemi => absurd hsemi (h.closes.cons _).2
  | blockForm h => exact fun hsemi => absurd hsemi h.closes.2
  | exprForm h _ _ => exact fun hsemi => absurd hsemi h.closes.2
  | assign | noAssign | binary | tighter | unary | noUnary | call | index | field | notApplied
  | number | text | trueWord | falseWord | undefined | var | parens | array | map | lambda
  | namedLambda | noItems | oneItem | moreItems | noEntries | oneEntry | moreEntries | noParams
  | oneParam | moreParams | code | noStatements | moreStatements | block => trivial

/-! ## Programs one after the other -/

/-- **Programs one after the other.**  A program that ends with a semicolon, or has no tokens, may
be put in front of any other. -/
theorem Derives.statements_append {body more : List (Stmt Span)} {mark : Token}
    (h : Derives (.statements body) ts mark) (hsemi : ts = [] ∨ EndsSemicolon ts)
    (hmore : Derives (.statements more) us next) :
    Derives (.statements (body ++ more)) (ts ++ us) next := by
  induction body generalizing ts with
  | nil =>
    cases h
    exact hmore
  | cons s body ih =>
    cases h with
    | @moreStatements _ _ ts₁ ts₂ _ hfirst hrest =>
      have hne : ts₁ ≠ [] := hfirst.ne_nil rfl
      have hlast : EndsSemicolon (ts₁ ++ ts₂) := hsemi.resolve_left (by simp [hne])
      rw [List.append_assoc]
      cases ts₂ with
      | nil =>
        -- the first statement is the last one, and is now followed by the other program
        rw [List.append_nil] at hlast
        have hnext : StartsAnew (us.headD next) := hmore.startsAnew
        exact .moreStatements (hfirst.before hlast _ hnext) (ih hrest (.inl rfl))
      | cons t ts₂ =>
        have hlast₂ : EndsSemicolon (t :: ts₂) := hlast.of_append (by simp)
        exact .moreStatements hfirst (ih hrest (.inr hlast₂))

end Grammar

/-! ## The program of a stream -/

namespace TokenStream

open Grammar

variable {s u : TokenStream} {ts : List Token} {body : List (Stmt Span)}

/-- A program that is read to its end is a derivation up to the end mark. -/
theorem derives_of_program (hs : s.Closed) (h : (s.program hs).failure = none) :
    ∃ ts u, s.Passes ts u ∧ u.here.isEnd = true ∧
      Derives (.statements (s.program hs).statements) ts u.here := by
  induction s, hs using program.induct with
  | case1 s hs hmore e s' he =>
    rw [program_of_error hs hmore he] at h
    cases h
  | case2 s hs hmore stmt s' hstmt _ ih =>
    rw [program_of_ok hs hmore hstmt] at h ⊢
    obtain ⟨us, u, hrest, hend, hmoreStatements⟩ := ih h
    obtain ⟨ts, hpass, hderives⟩ := derives_of_parseNext hs hstmt
    rw [hrest.here_eq_headD] at hderives
    exact ⟨ts ++ us, u, hpass.trans hrest, hend, .moreStatements hderives hmoreStatements⟩
  | case3 s hs hmore =>
    rw [Bool.not_eq_true] at hmore
    have hend : s.here.isEnd = true := by simpa [hasRemaining] using hmore
    rw [program_of_end hs hmore]
    exact ⟨[], s, .refl s, hend, .noStatements (.inr (by simpa [Token.isEnd] using hend))⟩

/-- In front of a derivation up to the end mark, its statements are read. -/
theorem program_of_derives (hs : s.Closed) (hpass : s.Passes ts u) (hend : u.here.isEnd = true)
    (h : Derives (.statements body) ts u.here) : s.program hs = ⟨body, none⟩ := by
  induction body generalizing s ts with
  | nil =>
    cases h
    obtain rfl := hpass.eq_of_nil
    exact program_of_end hs (by simp [hasRemaining, hend])
  | cons stmt body ih =>
    cases h with
    | @moreStatements _ _ ts₁ ts₂ _ hfirst hrest =>
      obtain ⟨s', hpass₁, hpass₂⟩ := hpass.split
      rw [← hpass₂.here_eq_headD] at hfirst
      have hparse : s.parseNext = (.ok stmt, s') := parseNext_of_derives hpass₁ hfirst
      have hmore : s.hasRemaining = true := by
        obtain ⟨t, us, rfl, ht⟩ := hfirst.opens.first
        rw [hasRemaining, hpass₁.here_eq]
        cases hmark : t.isEnd with
        | false => rfl
        | true =>
          rw [show t.lexeme = .endOfInput by simpa [Token.isEnd] using hmark] at ht
          exact absurd ht (by decide)
      rw [program_of_ok hs hmore hparse, ih (closed_of_parseNext hs hparse) hpass₂ hrest]

end TokenStream

end Script
