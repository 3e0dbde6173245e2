import Script.Proofs.Grammar.Completeness

/-!
# Moving derivations to another place

The grammar looks at lexemes only, and builds the spans of a tree from those of its tokens.  So a
derivation may be moved to another place in the text: if the positions of all tokens are changed in
a way that keeps their order, the tokens derive the same tree with its spans changed in that way.

A derivation may also be moved in front of another token, as long as that token goes on with
nothing.  What ends a statement goes on with no expression, and an end mark goes on with nothing at
all.

## Main definitions

* `Span.map`, `Token.move`: a span and a token with other positions.
* `Phrase.move`: a phrase whose spans are changed.

## Main results

* `Derives.move`: moving the tokens of a phrase.
* `Derives.before_ending`: an expression or a block in front of what ends a statement.
* `Derives.at_end`, `Derives.expression_at_end`: a phrase in front of an end mark.
* `Derives.expression_unique`, `Derives.statement_unique`: tokens denote one tree only.
-/

namespace Script

/-- The span with both positions changed by `g`. -/
def Span.map (g : Nat → Nat) (s : Span) : Span := ⟨g s.start, g s.stop⟩

/-- The token at another place. -/
def Token.move (g : Nat → Nat) (t : Token) : Token := ⟨t.lexeme, t.span.map g⟩

/-- The same statement with another annotation at its root. -/
def Stmt.setAnn {α : Type} (a : α) : Stmt α → Stmt α
  | .letVar _ name init => .letVar a name init
  | .function _ name params body => .function a name params body
  | .expr _ e => .expr a e
  | .block _ body => .block a body
  | .ifElse _ condition yes no => .ifElse a condition yes no
  | .whileLoop _ condition body => .whileLoop a condition body
  | .forEach _ name items body => .forEach a name items body
  | .tryCatch _ body name handler => .tryCatch a body name handler
  | .throw _ e => .throw a e
  | .ret _ e => .ret a e
  | .brk _ => .brk a
  | .cont _ => .cont a

theorem Span.map_join (g : Nat → Nat) (a b : Span) : (a.join b).map g = (a.map g).join (b.map g) :=
  rfl

theorem Expr.map_ann (g : Nat → Nat) (e : Expr Span) :
    e.ann.map g = (e.mapAnn (Span.map g)).ann := by
  cases e <;> simp only [Expr.mapAnn, Expr.ann]

theorem Expr.mapAnn_setAnn {α β : Type} (f : α → β) (a : α) (e : Expr α) :
    (e.setAnn a).mapAnn f = (e.mapAnn f).setAnn (f a) := by
  cases e <;> simp only [Expr.setAnn, Expr.mapAnn]

namespace Grammar

open Outcome

variable {phrase : Phrase} {ts us : List Token} {next mark : Token} {g : Nat → Nat}

/-! ## Moving -/

/-- The same phrase with every span changed. -/
def Phrase.move (g : Nat → Nat) : Phrase → Phrase
  | expression e => expression (e.mapAnn (Span.map g))
  | operation level e => operation level (e.mapAnn (Span.map g))
  | applied e => applied (e.mapAnn (Span.map g))
  | primary e => primary (e.mapAnn (Span.map g))
  | items close es => items close (Expr.mapAnnList (Span.map g) es)
  | entries es => entries (Expr.mapAnnEntries (Span.map g) es)
  | params names => params names
  | code names body => code names (Stmt.mapAnnList (Span.map g) body)
  | statements body => statements (Stmt.mapAnnList (Span.map g) body)
  | block body => block (Stmt.mapAnnList (Span.map g) body)
  | branch body => branch (Stmt.mapAnnList (Span.map g) body)
  | form build => form fun span => ((build ⟨0, 0⟩).mapAnn (Span.map g)).setAnn span
  | statement s => statement (s.mapAnn (Span.map g))

theorem opensBlock_map (g : Nat → Nat) (ts : List Token) :
    opensBlock (ts.map (Token.move g)) = opensBlock ts := by
  rcases ts with _ | ⟨_, _ | ⟨_, _ | ⟨_, _⟩⟩⟩ <;> rfl

theorem opensDeclaration_map (g : Nat → Nat) (ts : List Token) :
    opensDeclaration (ts.map (Token.move g)) = opensDeclaration ts := by
  rcases ts with _ | ⟨_, _ | ⟨_, _⟩⟩ <;> rfl

theorem opensBrace_map (g : Nat → Nat) (ts : List Token) :
    opensBrace (ts.map (Token.move g)) = opensBrace ts := by
  cases ts <;> rfl

theorem headD_map (g : Nat → Nat) (ts : List Token) (next : Token) :
    (ts.map (Token.move g)).headD (next.move g) = (ts.headD next).move g := by
  cases ts <;> rfl

/-- The span of moved tokens. -/
theorem cover_map (hg : ∀ m n, m ≤ n → g m ≤ g n) (hts : ts ≠ []) :
    cover (ts.map (Token.move g)) = (cover ts).map g := by
  obtain ⟨first, rest, rfl⟩ := List.exists_cons_of_ne_nil hts
  obtain ⟨last, hlast⟩ : ∃ last, (first :: rest).getLast? = some last :=
    ⟨_, List.getLast?_eq_some_getLast (by simp)⟩
  have hmax : ∀ m n, max (g m) (g n) = g (max m n) := by
    intro m n
    rcases Nat.le_total m n with hle | hle
    · rw [Nat.max_eq_right hle, Nat.max_eq_right (hg m n hle)]
    · rw [Nat.max_eq_left hle, Nat.max_eq_left (hg n m hle)]
  simp only [cover, List.head?_map, List.getLast?_map, hlast, List.head?_cons, Option.map_some]
  simp only [Token.move, Span.map, hmax]

/-- What a form is built of does not depend on its span. -/
theorem Derives.build_mapAnn {build : Span → Stmt Span} (h : Derives (.form build) ts next)
    (f : Span → Span) (span : Span) :
    (build span).mapAnn f = ((build ⟨0, 0⟩).mapAnn f).setAnn (f span) := by
  cases h <;> simp only [Stmt.mapAnn, Stmt.setAnn]

/-- **A derivation may be moved.**  The order of positions must be kept, so that a span still ends
behind its beginning. -/
theorem Derives.move (hg : ∀ m n, m ≤ n → g m ≤ g n) (h : Derives phrase ts next) :
    Derives (phrase.move g) (ts.map (Token.move g)) (next.move g) := by
  -- the lexemes are the same, but these facts are needed about the moved tokens
  have hlex : ∀ {t : Token} {l : Lexeme}, t.lexeme = l → (t.move g).lexeme = l := id
  have hkey' : ∀ {t : Token} {name : String}, t.key? = some name → (t.move g).key? = some name := id
  induction h with
  | @assign place _ _ _ _ _ _ _ htarget hmark _ ihplace ihvalue =>
    have hmoved := Expr.toTarget?_mapAnn (Span.map g) place
    rw [htarget] at hmoved
    simp only [Phrase.move, Expr.mapAnn, Span.map_join, Expr.map_ann, List.map_append,
      List.map_cons]
    exact .assign ihplace hmoved (hlex hmark) ihvalue
  | noAssign _ hop hassign ih => exact .noAssign ih hop hassign
  | binary _ hmark _ hop ihleft ihright =>
    simp only [Phrase.move, Expr.mapAnn, Span.map_join, Expr.map_ann, List.map_append,
      List.map_cons]
    exact .binary ihleft (hlex hmark) ihright hop
  | tighter hlevel _ hop ih => exact .tighter hlevel ih hop
  | unary hmark _ ih =>
    simp only [Phrase.move, Expr.mapAnn, Span.map_join, Expr.map_ann, List.map_cons]
    exact .unary (hlex hmark) ih
  | noUnary _ hnext ih => exact .noUnary ih hnext
  | call _ hleft _ hright ihf ihargs =>
    simp only [Phrase.move, Expr.mapAnn, Span.map_join, Expr.map_ann, List.map_append,
      List.map_cons, List.map_nil]
    exact .call ihf (hlex hleft) ihargs (hlex hright)
  | index _ hleft _ hright ihe ihkey =>
    simp only [Phrase.move, Expr.mapAnn, Span.map_join, Expr.map_ann, List.map_append,
      List.map_cons, List.map_nil]
    exact .index ihe (hlex hleft) ihkey (hlex hright)
  | field _ hdot hmember ih =>
    simp only [Phrase.move, Expr.mapAnn, Span.map_join, Expr.map_ann, List.map_append,
      List.map_cons, List.map_nil]
    exact .field ih (hlex hdot) (hlex hmember)
  | notApplied _ ih => exact .notApplied ih
  | number ht hvalue => exact .number (hlex ht) hvalue
  | text ht => exact .text (hlex ht)
  | trueWord ht => exact .trueWord (hlex ht)
  | falseWord ht => exact .falseWord (hlex ht)
  | undefined ht => exact .undefined (hlex ht)
  | var ht => exact .var (hlex ht)
  | parens hleft _ hright ih =>
    simp only [Phrase.move, Expr.mapAnn_setAnn, Span.map_join, List.map_append, List.map_cons,
      List.map_nil]
    exact .parens (hlex hleft) ih (hlex hright)
  | array hleft _ hright ih =>
    simp only [Phrase.move, Expr.mapAnn, Span.map_join, List.map_append, List.map_cons,
      List.map_nil]
    exact .array (hlex hleft) ih (hlex hright)
  | map hleft _ hright ih =>
    simp only [Phrase.move, Expr.mapAnn, Span.map_join, List.map_append, List.map_cons,
      List.map_nil]
    exact .map (hlex hleft) ih (hlex hright)
  | lambda hword _ ih =>
    simp only [Phrase.move, Expr.mapAnn]
    rw [← cover_map hg (by simp)]
    exact .lambda (hlex hword) ih
  | namedLambda hword hlabel _ ih =>
    simp only [Phrase.move, Expr.mapAnn]
    rw [← cover_map hg (by simp)]
    exact .namedLambda (hlex hword) (hlex hlabel) ih
  | noItems hclose => exact .noItems (hlex hclose)
  | oneItem _ hnext ih => exact .oneItem ih hnext
  | moreItems _ hcomma _ ih ihmore =>
    simp only [Phrase.move, Expr.mapAnnList, List.map_append, List.map_cons]
    exact .moreItems ih (hlex hcomma) ihmore
  | noEntries hclose => exact .noEntries (hlex hclose)
  | oneEntry hkey hcolon _ hnext ih => exact .oneEntry (hkey' hkey) (hlex hcolon) ih hnext
  | moreEntries hkey hcolon _ hcomma _ ih ihmore =>
    simp only [Phrase.move, Expr.mapAnnEntries, List.map_append, List.map_cons]
    exact .moreEntries (hkey' hkey) (hlex hcolon) ih (hlex hcomma) ihmore
  | noParams hclose => exact .noParams (hlex hclose)
  | oneParam ht hnext => exact .oneParam (hlex ht) hnext
  | moreParams ht hcomma _ ih => exact .moreParams (hlex ht) (hlex hcomma) ih
  | code hleft _ hright _ ihparams ihbody =>
    simp only [Phrase.move, List.map_append, List.map_cons]
    exact .code (hlex hleft) ihparams (hlex hright) ihbody
  | noStatements hend => exact .noStatements hend
  | moreStatements _ _ ih ihmore =>
    rw [← headD_map] at ih
    simp only [Phrase.move, Stmt.mapAnnList, List.map_append]
    exact .moreStatements ih ihmore
  | block hleft _ hright ih =>
    simp only [Phrase.move, List.map_append, List.map_cons, List.map_nil]
    exact .block (hlex hleft) ih (hlex hright)
  | blockBranch _ ih => exact .blockBranch ih
  | singleBranch _ hopen ih => exact .singleBranch ih ((opensBrace_map g _).trans hopen)
  | bare h hnext ih =>
    simp only [Phrase.move]
    rw [h.build_mapAnn, ← cover_map hg (h.ne_nil rfl)]
    exact .bare ih hnext
  | ended h hmark ih =>
    simp only [Phrase.move, List.map_append, List.map_cons, List.map_nil]
    rw [h.build_mapAnn, ← cover_map hg (h.ne_nil rfl)]
    exact .ended ih (hlex hmark)
  | letVar hword hlabel hnext => exact .letVar (hlex hword) (hlex hlabel) hnext
  | letInit hword hlabel hmark _ ih =>
    exact .letInit (hlex hword) (hlex hlabel) (hlex hmark) ih
  | function hword hlabel _ ih => exact .function (hlex hword) (hlex hlabel) ih
  | ifThen hword hleft _ hright _ hnext ihtest ihyes =>
    simp only [List.map_append, List.map_cons]
    exact .ifThen (hlex hword) (hlex hleft) ihtest (hlex hright) ihyes hnext
  | ifElse hword hleft _ hright _ hother _ ihtest ihyes ihno =>
    simp only [List.map_append, List.map_cons]
    exact .ifElse (hlex hword) (hlex hleft) ihtest (hlex hright) ihyes (hlex hother) ihno
  | whileLoop hword hleft _ hright _ ihtest ihbody =>
    simp only [List.map_append, List.map_cons]
    exact .whileLoop (hlex hword) (hlex hleft) ihtest (hlex hright) ihbody
  | forEach hword hleft hlabel hwithin _ hright _ ih ihbody =>
    simp only [List.map_append, List.map_cons]
    exact .forEach (hlex hword) (hlex hleft) (hlex hlabel) (hlex hwithin) ih (hlex hright)
      ihbody
  | tryCatch hword _ hrescue hleft hlabel hright _ ihbody ihhandler =>
    simp only [List.map_append, List.map_cons]
    exact .tryCatch (hlex hword) ihbody (hlex hrescue) (hlex hleft) (hlex hlabel) (hlex hright)
      ihhandler
  | throw hword _ ih => exact .throw (hlex hword) ih
  | ret hword hnext => exact .ret (hlex hword) hnext
  | retValue hword _ ih => exact .retValue (hlex hword) ih
  | brk hword => exact .brk (hlex hword)
  | cont hword => exact .cont (hlex hword)
  | blockForm _ ih => exact .blockForm ih
  | exprForm _ hblock hdeclaration ih =>
    exact .exprForm ih ((opensBlock_map g _).trans hblock)
      ((opensDeclaration_map g _).trans hdeclaration)

/-! ## In front of what ends a statement -/

/-- Whether a phrase has no statement at its end. -/
def Phrase.compact : Phrase → Bool
  | expression _ | operation _ _ | applied _ | primary _ | code _ _ | block _ => true
  | _ => false

theorem noOperator_of_endsStatement (hmark : EndsStatement mark) (level : Nat) :
    NoOperator level mark := by
  intro op _
  rcases hmark with h | h | h <;> rw [h] <;> cases op <;> simp [BinaryOp.mark]

theorem noApplication_of_endsStatement (hmark : EndsStatement mark) : NoApplication mark := by
  rcases hmark with h | h | h <;> simp [NoApplication, h]

theorem ne_assign_of_endsStatement (hmark : EndsStatement mark) :
    mark.lexeme ≠ .symbol .assign := by
  rcases hmark with h | h | h <;> simp [h]

/-- **What ends a statement goes on with no expression**, and with no block. -/
theorem Derives.before_ending (hmark : EndsStatement mark) (h : Derives phrase ts next)
    (hphrase : phrase.compact = true) : Derives phrase ts mark := by
  have hop := noOperator_of_endsStatement hmark
  induction h with
  | assign hplace htarget hassign _ _ ih => exact .assign hplace htarget hassign (ih rfl)
  | noAssign _ _ _ ih => exact .noAssign (ih rfl) (hop 0) (ne_assign_of_endsStatement hmark)
  | binary hleft hsymbol _ _ _ ih => exact .binary hleft hsymbol (ih rfl) (hop _)
  | tighter hlevel _ _ ih => exact .tighter hlevel (ih rfl) (hop _)
  | unary hsymbol _ ih => exact .unary hsymbol (ih rfl)
  | noUnary _ _ ih => exact .noUnary (ih rfl) (noApplication_of_endsStatement hmark)
  | call hf hleft hargs hright => exact .call hf hleft hargs hright
  | index he hleft hkey hright => exact .index he hleft hkey hright
  | field he hdot hmember => exact .field he hdot hmember
  | notApplied _ ih => exact .notApplied (ih rfl)
  | number ht hvalue => exact .number ht hvalue
  | text ht => exact .text ht
  | trueWord ht => exact .trueWord ht
  | falseWord ht => exact .falseWord ht
  | undefined ht => exact .undefined ht
  | var ht => exact .var ht
  | parens hleft h hright => exact .parens hleft h hright
  | array hleft h hright => exact .array hleft h hright
  | map hleft h hright => exact .map hleft h hright
  | lambda hword _ ih => exact .lambda hword (ih rfl)
  | namedLambda hword hlabel _ ih => exact .namedLambda hword hlabel (ih rfl)
  | code hleft hparams hright _ _ ih => exact .code hleft hparams hright (ih rfl)
  | block hleft h hright => exact .block hleft h hright
  | noItems | oneItem | moreItems | noEntries | oneEntry | moreEntries | noParams | oneParam
  | moreParams | noStatements | moreStatements | blockBranch | singleBranch | bare | ended | letVar
  | letInit | function | ifThen | ifElse | whileLoop | forEach | tryCatch | throw | ret | retValue
  | brk | cont | blockForm | exprForm => cases hphrase

/-! ## In front of an end mark -/

/-- Whether a phrase may be the last one of a text.  Lists are followed by their closing mark. -/
def Phrase.mayEnd : Phrase → Bool
  | items _ _ | entries _ | params _ => false
  | _ => true

theorem endsStatement_of_isEnd (hmark : mark.isEnd = true) : EndsStatement mark :=
  .inr (.inr (Token.isEnd_iff.mp hmark))

/-- **An end mark goes on with nothing**, so it may follow every phrase that is closed in itself. -/
theorem Derives.at_end (hmark : mark.isEnd = true) (h : Derives phrase ts next)
    (hphrase : phrase.mayEnd = true) : Derives phrase ts mark := by
  have hend := Token.isEnd_iff.mp hmark
  have hends := endsStatement_of_isEnd hmark
  rcases Bool.eq_false_or_eq_true phrase.compact with hcompact | hcompact
  · exact h.before_ending hends hcompact
  -- what is left has a statement at its end
  induction h with
  | noItems | oneItem | moreItems | noEntries | oneEntry | moreEntries | noParams | oneParam
  | moreParams => cases hphrase
  | noStatements _ => exact .noStatements (.inr hend)
  | @moreStatements _ _ _ us _ h _ ih ihmore =>
    refine .moreStatements ?_ (ihmore rfl rfl)
    cases us with
    | nil => exact ih rfl rfl
    | cons => exact h
  | blockBranch h => exact .blockBranch (h.before_ending hends rfl)
  | singleBranch _ hopen ih => exact .singleBranch (ih rfl rfl) hopen
  | bare _ _ ih => exact .bare (ih rfl rfl) (by simp [hend])
  | ended h hsemi => exact .ended h hsemi
  | letVar hword hlabel _ => exact .letVar hword hlabel (by simp [hend])
  | letInit hword hlabel hassign h =>
    exact .letInit hword hlabel hassign (h.before_ending hends rfl)
  | function hword hlabel h => exact .function hword hlabel (h.before_ending hends rfl)
  | ifThen hword hleft htest hright _ _ _ ih =>
    exact .ifThen hword hleft htest hright (ih rfl rfl) (by simp [hend])
  | ifElse hword hleft htest hright hyes hother _ _ _ ih =>
    exact .ifElse hword hleft htest hright hyes hother (ih rfl rfl)
  | whileLoop hword hleft htest hright _ _ ih =>
    exact .whileLoop hword hleft htest hright (ih rfl rfl)
  | forEach hword hleft hlabel hwithin h hright _ _ ih =>
    exact .forEach hword hleft hlabel hwithin h hright (ih rfl rfl)
  | tryCatch hword hbody hrescue hleft hlabel hright hhandler =>
    exact .tryCatch hword hbody hrescue hleft hlabel hright (hhandler.before_ending hends rfl)
  | throw hword h => exact .throw hword (h.before_ending hends rfl)
  | ret hword _ => exact .ret hword hends
  | retValue hword h => exact .retValue hword (h.before_ending hends rfl)
  | brk hword => exact .brk hword
  | cont hword => exact .cont hword
  | blockForm h => exact .blockForm (h.before_ending hends rfl)
  | exprForm h hblock hdeclaration =>
    exact .exprForm (h.before_ending hends rfl) hblock hdeclaration
  | assign | noAssign | binary | tighter | unary | noUnary | call | index | field | notApplied
  | number | text | trueWord | falseWord | undefined | var | parens | array | map | lambda
  | namedLambda | code | block => cases hcompact

/-- The expression that a phrase is, if it is one. -/
def Phrase.expr? : Phrase → Option (Expr Span)
  | expression e | operation _ e | applied e | primary e => some e
  | _ => none

theorem Derives.level_le {level : Nat} {e : Expr Span} (h : Derives (.operation level e) ts next) :
    level ≤ unaryLevel := by
  cases h with
  | @binary op => exact Nat.le_of_lt op.level_lt_unaryLevel
  | tighter hlevel => exact Nat.le_of_lt hlevel
  | unary | noUnary => exact Nat.le_refl _

/-- An operation of any level in front of an end mark. -/
theorem Derives.expression_of_operation (hmark : mark.isEnd = true) {level : Nat} {e : Expr Span}
    (h : Derives (.operation level e) ts mark) : Derives (.expression e) ts mark := by
  induction level with
  | zero =>
    have hends := endsStatement_of_isEnd hmark
    exact .noAssign h (noOperator_of_endsStatement hends 0) (ne_assign_of_endsStatement hends)
  | succ level ih =>
    have hop := noOperator_of_endsStatement (endsStatement_of_isEnd hmark)
    exact ih (.tighter h.level_le h (hop _))

/-- **Every part of an expression is an expression**, if an end mark follows. -/
theorem Derives.expression_at_end (hmark : mark.isEnd = true) (h : Derives phrase ts next)
    {e : Expr Span} (he : phrase.expr? = some e) : Derives (.expression e) ts mark := by
  have happlied : ∀ {e : Expr Span}, Derives (.applied e) ts mark →
      Derives (.expression e) ts mark := fun h =>
    (Derives.noUnary h (noApplication_of_endsStatement
      (endsStatement_of_isEnd hmark))).expression_of_operation hmark
  cases phrase with
  | expression => cases he; exact h.at_end hmark rfl
  | operation => cases he; exact (h.at_end hmark rfl).expression_of_operation hmark
  | applied => cases he; exact happlied (h.at_end hmark rfl)
  | primary => cases he; exact happlied (.notApplied (h.at_end hmark rfl))
  | _ => cases he

/-! ## Tokens denote one tree -/

theorem Derives.expression_unique {e e' : Expr Span} (h : Derives (.expression e) ts next)
    (h' : Derives (.expression e') ts next) : e = e' := by
  have hpass := TokenStream.ofTokens_passes ts next
  have hrun := h.accepted (ts.length + 1) (by omega) hpass rfl
  have hrun' := h'.accepted (ts.length + 1) (by omega) hpass rfl
  exact (pure_eq_ok_iff.mp (hrun.symm.trans hrun')).1

theorem Derives.statement_unique {s s' : Stmt Span} (h : Derives (.statement s) ts next)
    (h' : Derives (.statement s') ts next) : s = s' := by
  have hpass := TokenStream.ofTokens_passes ts next
  have hrun := h.accepted (ts.length + 2) (by omega) hpass rfl
  have hrun' := h'.accepted (ts.length + 2) (by omega) hpass rfl
  exact (pure_eq_ok_iff.mp (hrun.symm.trans hrun')).1

end Grammar

end Script
