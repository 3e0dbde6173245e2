import Script.Proofs.Grammar.Basic

/-!
# How phrases begin

The parser chooses a production from the next token, and at an opening brace from the next three.
These lemmas say that the choice is forced: what a phrase can begin with, and that no block begins
like a map.

## Main definitions

* `Opening`: what the first tokens of an expression or a statement look like.
* `Phrase.Opens`: what is known about the first tokens of each phrase.
-/

namespace Script

namespace Lexeme

/-- The lexemes that an expression closed in itself can begin with. -/
def beginsPrimary : Lexeme → Bool
  | identifier _ | number _ | quoted _ => true
  | keyword word =>
    word = .trueWord || word = .falseWord || word = .undefined || word = .function
  | symbol mark => mark = .leftParen || mark = .leftBracket || mark = .leftBrace
  | endOfInput => false

/-- The lexemes that an expression can begin with. -/
def beginsExpression (l : Lexeme) : Bool :=
  l.beginsPrimary || l = .symbol .minus || l = .symbol .bang

/-- The lexemes that a statement can begin with.  Three keywords only go on with one. -/
def beginsStatement (l : Lexeme) : Bool :=
  match l with
  | keyword word => word ≠ .elseWord && word ≠ .inWord && word ≠ .catchWord
  | l => l.beginsExpression

theorem beginsExpression_of_beginsPrimary {l : Lexeme} (h : l.beginsPrimary = true) :
    l.beginsExpression = true := by
  simp [beginsExpression, h]

theorem beginsExpression_mark (op : UnaryOp) : (symbol op.mark).beginsExpression = true := by
  cases op <;> rfl

theorem beginsStatement_of_beginsExpression {l : Lexeme} (h : l.beginsExpression = true) :
    l.beginsStatement = true := by
  unfold beginsStatement
  split
  · next word =>
    cases word with
    | elseWord | inWord | catchWord => exact absurd h (by decide)
    | letWord | function | ifWord | whileWord | forWord | returnWord | breakWord | continueWord
    | throwWord | tryWord | trueWord | falseWord | undefined => rfl
  · exact h

end Lexeme

namespace Grammar

/-- The first tokens of an expression or a statement whose first lexeme is as `starts` says.  Only a
key in front of its colon would have a colon in the second place, an opening brace is followed by
its closing one or by more than one token, and the word for a function does not stand alone. -/
structure Opening (starts : Lexeme → Bool) (ts : List Token) : Prop where
  first : ∃ t us, ts = t :: us ∧ starts t.lexeme = true
  colon : ∀ t u us, ts = t :: u :: us → t.key?.isSome = true → u.lexeme ≠ .symbol .colon
  brace : ∀ t us, ts = t :: us → t.lexeme = .symbol .leftBrace →
    2 ≤ us.length ∨ ∃ right, us = [right] ∧ right.lexeme = .symbol .rightBrace
  word : ∀ t us, ts = t :: us → t.lexeme = .keyword .function → us ≠ []

namespace Opening

variable {starts starts' : Lexeme → Bool} {ts us : List Token} {t : Token}

theorem mono (h : Opening starts ts) (himp : ∀ l, starts l = true → starts' l = true) :
    Opening starts' ts := by
  obtain ⟨t, us, rfl, ht⟩ := h.first
  exact ⟨⟨t, us, rfl, himp _ ht⟩, h.colon, h.brace, h.word⟩

/-- What follows does not change how a phrase begins, as long as it does not begin with a colon. -/
theorem append (h : Opening starts ts)
    (hus : ∀ u vs, us = u :: vs → u.lexeme ≠ .symbol .colon) : Opening starts (ts ++ us) := by
  obtain ⟨t, vs, rfl, ht⟩ := h.first
  refine ⟨⟨t, vs ++ us, rfl, ht⟩, ?_, ?_, ?_⟩
  · intro t' u ws heq hkey
    simp only [List.cons_append, List.cons.injEq] at heq
    obtain ⟨rfl, heq⟩ := heq
    cases vs with
    | nil => exact hus u ws heq
    | cons v vs =>
      obtain ⟨rfl, -⟩ := List.cons.inj heq
      exact h.colon t v vs rfl hkey
  · intro t' ws heq hbrace
    simp only [List.cons_append, List.cons.injEq] at heq
    obtain ⟨rfl, rfl⟩ := heq
    rcases h.brace t vs rfl hbrace with hlong | ⟨right, rfl, hright⟩
    · exact .inl (by simp; omega)
    · cases us with
      | nil => exact .inr ⟨right, rfl, hright⟩
      | cons u us => exact .inl (by simp)
  · intro t' ws heq hword
    simp only [List.cons_append, List.cons.injEq] at heq
    obtain ⟨rfl, rfl⟩ := heq
    simp [h.word t vs rfl hword]

/-- A first token that is no key, no brace and not the word for a function. -/
theorem of_plain (ht : starts t.lexeme = true) (hkey : t.key? = none)
    (hbrace : t.lexeme ≠ .symbol .leftBrace) (hword : t.lexeme ≠ .keyword .function) :
    Opening starts (t :: us) := by
  refine ⟨⟨t, us, rfl, ht⟩, ?_, ?_, ?_⟩
  · intro t' u vs heq hsome
    obtain ⟨rfl, -⟩ := List.cons.inj heq
    simp [hkey] at hsome
  · intro t' vs heq ht'
    obtain ⟨rfl, -⟩ := List.cons.inj heq
    exact absurd ht' hbrace
  · intro t' vs heq ht'
    obtain ⟨rfl, -⟩ := List.cons.inj heq
    exact absurd ht' hword

theorem of_single {l : Lexeme} (hl : t.lexeme = l) (ht : starts l = true)
    (hbrace : l ≠ .symbol .leftBrace) (hword : l ≠ .keyword .function) : Opening starts [t] := by
  subst hl
  exact ⟨⟨t, [], rfl, ht⟩, by simp, by simp [hbrace], by simp [hword]⟩

theorem of_symbol {mark : Symbol} (hmark : t.lexeme = .symbol mark)
    (ht : starts (.symbol mark) = true) (hbrace : mark ≠ .leftBrace) : Opening starts (t :: us) :=
  of_plain (hmark ▸ ht) (by simp [Token.key?, hmark]) (by simpa [hmark] using hbrace)
    (by simp [hmark])

theorem of_keyword {word : Keyword} (hword : t.lexeme = .keyword word)
    (ht : starts (.keyword word) = true) (hne : word ≠ .function ∨ us ≠ []) :
    Opening starts (t :: us) := by
  refine ⟨⟨t, us, rfl, hword ▸ ht⟩, ?_, ?_, ?_⟩
  · intro t' u vs heq hsome
    obtain ⟨rfl, -⟩ := List.cons.inj heq
    simp [Token.key?, hword] at hsome
  · intro t' vs heq ht'
    obtain ⟨rfl, -⟩ := List.cons.inj heq
    simp [hword] at ht'
  · intro t' vs heq ht'
    obtain ⟨rfl, rfl⟩ := List.cons.inj heq
    rw [hword, Lexeme.keyword.injEq] at ht'
    exact hne.resolve_left (not_not_intro ht')

/-- Braces with nothing or with more than one token between them. -/
theorem of_braces {left right : Token} (hleft : left.lexeme = .symbol .leftBrace)
    (hright : right.lexeme = .symbol .rightBrace) (ht : starts (.symbol .leftBrace) = true) :
    Opening starts (left :: (ts ++ [right])) := by
  refine ⟨⟨left, _, rfl, hleft ▸ ht⟩, ?_, ?_, ?_⟩
  · intro t' u vs heq hsome
    obtain ⟨rfl, -⟩ := List.cons.inj heq
    simp [Token.key?, hleft] at hsome
  · intro t' vs heq _
    obtain ⟨-, rfl⟩ := List.cons.inj heq
    cases ts with
    | nil => exact .inr ⟨right, rfl, hright⟩
    | cons u us => exact .inl (by simp)
  · intro t' vs heq _
    obtain ⟨-, rfl⟩ := List.cons.inj heq
    simp

end Opening

/-- What is known about the first tokens of a phrase. -/
def Phrase.Opens : Phrase → List Token → Prop
  | expression _, ts | operation _ _, ts => Opening Lexeme.beginsExpression ts
  | applied _, ts | primary _, ts => Opening Lexeme.beginsPrimary ts
  | block _, ts | branch _, ts | form _, ts | statement _, ts => Opening Lexeme.beginsStatement ts
  | statements _, ts => ts = [] ∨ Opening Lexeme.beginsStatement ts
  | _, _ => True

/-- A mark that is no colon may stand after the first phrase. -/
private theorem not_colon_of_lexeme {mark : Token} {us : List Token} {l : Lexeme}
    (hmark : mark.lexeme = l) (hl : l ≠ .symbol .colon) :
    ∀ u vs, mark :: us = u :: vs → u.lexeme ≠ .symbol .colon := by
  intro u vs heq
  obtain ⟨rfl, -⟩ := List.cons.inj heq
  rw [hmark]
  exact hl

theorem Derives.opens {phrase : Phrase} {ts : List Token} {next : Token}
    (h : Derives phrase ts next) : phrase.Opens ts := by
  induction h with
  | assign _ _ hmark _ ih _ => exact ih.append (not_colon_of_lexeme hmark (by simp))
  | noAssign _ _ _ ih => exact ih
  | @binary op _ _ _ _ _ _ _ hmark _ _ ih _ =>
    exact ih.append (not_colon_of_lexeme hmark (by cases op <;> simp [BinaryOp.mark]))
  | tighter _ _ _ ih => exact ih
  | @unary op _ _ _ _ hmark _ _ =>
    exact .of_symbol hmark (Lexeme.beginsExpression_mark op) (by cases op <;> simp [UnaryOp.mark])
  | noUnary _ _ ih => exact ih.mono fun _ => Lexeme.beginsExpression_of_beginsPrimary
  | call _ hleft _ _ ih _ => exact ih.append (not_colon_of_lexeme hleft (by simp))
  | index _ hleft _ _ ih _ => exact ih.append (not_colon_of_lexeme hleft (by simp))
  | field _ hdot _ ih => exact ih.append (not_colon_of_lexeme hdot (by simp))
  | notApplied _ ih => exact ih
  | number ht _ | text ht | var ht => exact .of_single ht rfl (by simp) (by simp)
  | trueWord ht | falseWord ht | undefined ht => exact .of_keyword ht rfl (.inl (by simp))
  | parens hleft _ _ _ | array hleft _ _ _ => exact .of_symbol hleft rfl (by simp)
  | map hleft _ hright _ => exact .of_braces hleft hright rfl
  | lambda hword h _ => exact .of_keyword hword rfl (.inr (h.ne_nil rfl))
  | namedLambda hword _ _ _ => exact .of_keyword hword rfl (.inr (by simp))
  | noItems | oneItem | moreItems | noEntries | oneEntry | moreEntries | noParams | oneParam
  | moreParams | code => trivial
  | noStatements => exact .inl rfl
  | moreStatements _ _ ih ihmore =>
    refine .inr (ih.append ?_)
    intro u vs hus
    rcases ihmore with hnil | hmore
    · simp [hnil] at hus
    · obtain ⟨t, ws, heq, ht⟩ := hmore.first
      obtain ⟨rfl, -⟩ := List.cons.inj (heq.symm.trans hus)
      intro hcolon
      rw [hcolon] at ht
      exact absurd ht (by decide)
  | block hleft _ hright _ => exact .of_braces hleft hright rfl
  | blockBranch _ ih => exact ih
  | singleBranch _ _ ih => exact ih
  | bare _ _ ih => exact ih
  | ended _ hmark ih => exact ih.append (not_colon_of_lexeme hmark (by simp))
  | letVar hword _ _ | letInit hword _ _ _ _ | ifThen hword _ _ _ _ _ _ _
  | ifElse hword _ _ _ _ _ _ _ _ _ | whileLoop hword _ _ _ _ _ _ | forEach hword _ _ _ _ _ _ _ _
  | tryCatch hword _ _ _ _ _ _ _ _ | throw hword _ _ | ret hword _ | retValue hword _ _
  | brk hword | cont hword => exact .of_keyword hword rfl (.inl (by simp))
  | function hword _ _ _ => exact .of_keyword hword rfl (.inr (by simp))
  | blockForm _ ih => exact ih
  | exprForm _ _ _ ih => exact ih.mono fun _ => Lexeme.beginsStatement_of_beginsExpression

end Grammar

end Script
