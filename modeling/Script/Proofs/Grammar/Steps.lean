import Script.Parser.Stmt
import Script.Proofs.Grammar.Basic
import Script.Proofs.Grammar.Passing
import Script.Proofs.Outcome

/-!
# Single steps of the parser

What the parsers that read a single token do, and when they succeed.  A step that reads a token
moves past exactly that token.
-/

namespace Script

namespace Token

variable {t : Token}

theorem isSymbol_iff {mark : Symbol} : t.isSymbol mark = true ↔ t.lexeme = .symbol mark := by
  simp [isSymbol]

theorem isKeyword_iff {word : Keyword} : t.isKeyword word = true ↔ t.lexeme = .keyword word := by
  simp [isKeyword]

theorem isEnd_iff : t.isEnd = true ↔ t.lexeme = .endOfInput := by
  simp [isEnd]

theorem isIdentifier_iff : t.isIdentifier = true ↔ ∃ name, t.lexeme = .identifier name := by
  cases h : t.lexeme <;> simp [isIdentifier, h]

/-- A token that says something is no end mark. -/
theorem not_isEnd_of_lexeme {l : Lexeme} (h : t.lexeme = l) (hl : l ≠ .endOfInput) :
    t.isEnd = false := by
  simpa [isEnd, h] using hl

end Token

namespace Parser

open Outcome

variable {α : Type} {s s' : TokenStream} {t : Token}

theorem peek_bind (f : Token → Parser α) (s : TokenStream) : (peek >>= f) s = f s.here s := rfl

theorem peekNth_bind (n : Nat) (f : Token → Parser α) (s : TokenStream) :
    (peekNth n >>= f) s = f (s.peekNth n) s := rfl

theorem advance_bind (f : Token → Parser α) (s : TokenStream) :
    (advance >>= f) s = f s.here s.advance := rfl

theorem fail_ne_ok {cause : ParseError.Cause} {a : α} : fail cause s ≠ .ok a s' := by
  simp [fail]

theorem failAt_ne_ok {cause : ParseError.Cause} {a : α} : failAt cause t s ≠ .ok a s' := by
  simp [failAt]

theorem accept_apply (mark : Symbol) (s : TokenStream) :
    accept mark s = if s.here.lexeme = .symbol mark then .ok true s.advance else .ok false s := by
  by_cases h : s.here.lexeme = .symbol mark <;>
    simp [accept, peek, advance, TokenStream.peek, Token.isSymbol, h, bind, EStateM.bind, pure,
      EStateM.pure]

theorem acceptKeyword_apply (word : Keyword) (s : TokenStream) :
    acceptKeyword word s =
      if s.here.lexeme = .keyword word then .ok true s.advance else .ok false s := by
  by_cases h : s.here.lexeme = .keyword word <;>
    simp [acceptKeyword, peek, advance, TokenStream.peek, Token.isKeyword, h, bind, EStateM.bind,
      pure, EStateM.pure]

theorem expect_eq_ok_iff {mark : Symbol} {cause : ParseError.Cause} :
    expect mark cause s = .ok t s' ↔
      s.here.lexeme = .symbol mark ∧ s.here = t ∧ s.advance = s' := by
  by_cases h : s.here.lexeme = .symbol mark <;>
    simp [expect, peek, advance, fail, TokenStream.peek, Token.isSymbol, h, bind, EStateM.bind]

theorem expectKeyword_eq_ok_iff {word : Keyword} :
    expectKeyword word s = .ok t s' ↔
      s.here.lexeme = .keyword word ∧ s.here = t ∧ s.advance = s' := by
  by_cases h : s.here.lexeme = .keyword word <;>
    simp [expectKeyword, peek, advance, fail, TokenStream.peek, Token.isKeyword, h, bind,
      EStateM.bind]

theorem identifier_eq_ok_iff {cause : ParseError.Cause} {p : String × Span} :
    identifier cause s = .ok p s' ↔
      s.here.lexeme = .identifier p.1 ∧ s.here.span = p.2 ∧ s.advance = s' := by
  obtain ⟨name, span⟩ := p
  cases h : s.here.lexeme <;>
    simp [identifier, peek, advance, fail, TokenStream.peek, h, bind, EStateM.bind, pure,
      EStateM.pure, and_assoc]

theorem endsStatement_iff : endsStatement t = true ↔ Grammar.EndsStatement t := by
  simp [endsStatement, Grammar.EndsStatement, Token.isSymbol, Token.isEnd, or_assoc]

/-- The span that is closed after some tokens have been passed covers these tokens. -/
theorem spanFrom_of_passes {ts : List Token} (h : s.Passes (t :: ts) s') :
    spanFrom t.span.start s' = .ok (Grammar.cover (t :: ts)) s' := by
  have hprevious : s'.previous? = (t :: ts).getLast? := by
    rw [TokenStream.previous?, h.behind_eq, List.head?_append, List.head?_reverse]
    cases hlast : (t :: ts).getLast? with
    | none => simp at hlast
    | some last => rfl
  cases hlast : (t :: ts).getLast? with
  | none => simp at hlast
  | some last => simp only [spanFrom, hprevious, hlast, Grammar.cover, List.head?_cons]

/-! ### Operators -/

/-- The table of a level holds the operators of that level, each under its symbol. -/
theorem lookup_binaryLevels {k : Nat} {table : List (Symbol × BinaryOp)}
    (htable : binaryLevels[k]? = some table) {mark : Symbol} {op : BinaryOp} :
    table.lookup mark = some op ↔ op.level = k ∧ mark = op.mark := by
  constructor
  · intro h
    match k, htable with
    | 0, htable | 1, htable | 2, htable | 3, htable | 4, htable | 5, htable =>
      cases htable
      cases mark <;> cases h <;> exact ⟨rfl, rfl⟩
  · rintro ⟨rfl, rfl⟩
    cases op <;> cases htable <;> rfl

theorem operator?_eq_some_iff {k : Nat} {table : List (Symbol × BinaryOp)}
    (htable : binaryLevels[k]? = some table) {op : BinaryOp} :
    operator? table t = some op ↔ op.level = k ∧ t.lexeme = .symbol op.mark := by
  unfold operator?
  split
  · next mark hmark => rw [lookup_binaryLevels htable, hmark, Lexeme.symbol.injEq]
  · next hmark => simpa using fun _ => hmark op.mark

theorem operator?_eq_none_iff {k : Nat} {table : List (Symbol × BinaryOp)}
    (htable : binaryLevels[k]? = some table) :
    operator? table t = none ↔ Grammar.NoOperator k t := by
  rw [Option.eq_none_iff_forall_ne_some]
  exact forall_congr' fun op => by rw [Ne, operator?_eq_some_iff htable, not_and]

theorem unaryOperator?_eq_some_iff {op : UnaryOp} :
    unaryOperator? t = some op ↔ t.lexeme = .symbol op.mark := by
  unfold unaryOperator?
  split
  · next hmark => cases op <;> simp [hmark, UnaryOp.mark]
  · next hmark => cases op <;> simp [hmark, UnaryOp.mark]
  · next hminus hbang =>
    cases op with
    | negate => simpa [UnaryOp.mark] using hminus
    | not => simpa [UnaryOp.mark] using hbang

end Parser

end Script
