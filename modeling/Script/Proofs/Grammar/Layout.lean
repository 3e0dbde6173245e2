import Script.Parser.Stmt
import Script.Proofs.Outcome

/-!
# The parser does not look at spans

Two streams that read alike have the same lexemes from the current token on, and differ only in
where their tokens stand.  On such streams the parser takes the same decisions: it moves past as
many tokens, and it yields trees that are equal up to spans, or errors with the same cause at tokens
with the same lexeme.

The two runs are followed side by side.  Each parser has a lemma that says so in terms of the
parsers that it is given, and the bounded recursion is closed by one induction on the depth at the
end.

## Main definitions

* `TokenStream.Alike`: streams with the same lexemes.
* `ParseError.Alike`: errors with the same cause at the same lexeme.
* `Parser.Alike`: parsers that correspond to each other on streams that read alike.

## Main results

* `TokenStream.Alike.parseNext`: the next statements of streams that read alike.
-/

namespace Script

open Outcome

/-- Two streams read alike: from the current token on, they have the same lexemes. -/
structure TokenStream.Alike (s t : TokenStream) : Prop where
  here : s.here.lexeme = t.here.lexeme
  ahead : s.ahead.map Token.lexeme = t.ahead.map Token.lexeme

/-- Two errors have the same cause, and are charged to tokens with the same lexeme. -/
structure ParseError.Alike (e f : ParseError) : Prop where
  cause : e.cause = f.cause
  lexeme : e.token.lexeme = f.token.lexeme

namespace TokenStream.Alike

variable {s t : TokenStream}

theorem advance (h : s.Alike t) : s.advance.Alike t.advance := by
  obtain ⟨behind, here, ahead⟩ := s
  obtain ⟨behind', here', ahead'⟩ := t
  obtain ⟨hhere, hahead⟩ := h
  have hend : here.isEnd = here'.isEnd := congrArg (decide <| · = Lexeme.endOfInput) hhere
  unfold TokenStream.advance
  simp only [hend]
  split
  · exact ⟨hhere, hahead⟩
  · cases ahead with
    | nil =>
      cases ahead' with
      | nil => exact ⟨hhere, hahead⟩
      | cons tok ahead' => cases hahead
    | cons tok ahead =>
      cases ahead' with
      | nil => cases hahead
      | cons tok' ahead' =>
        obtain ⟨htok, hrest⟩ := List.cons.inj hahead
        exact ⟨htok, hrest⟩

/-- The lexeme that is seen ahead depends on the lexemes ahead only. -/
theorem lexeme_peekNth_succ (s : TokenStream) (n : Nat) :
    (s.peekNth (n + 1)).lexeme =
      (s.ahead.map Token.lexeme)[n]?.getD
        ((s.ahead.map Token.lexeme).getLast?.getD s.here.lexeme) := by
  simp only [TokenStream.peekNth, List.getD_eq_getElem?_getD, List.getLastD_eq_getLast?,
    List.getElem?_map, List.getLast?_map]
  cases s.ahead[n]? with
  | some tok => rfl
  | none => cases s.ahead.getLast? <;> rfl

theorem peekNth (h : s.Alike t) (n : Nat) : (s.peekNth n).lexeme = (t.peekNth n).lexeme := by
  cases n with
  | zero => exact h.here
  | succ n => rw [lexeme_peekNth_succ, lexeme_peekNth_succ, h.here, h.ahead]

theorem remaining (h : s.Alike t) : s.remaining = t.remaining := by
  have hlength := congrArg List.length h.ahead
  rwa [List.length_map, List.length_map] at hlength

theorem hasRemaining (h : s.Alike t) : s.hasRemaining = t.hasRemaining := by
  unfold TokenStream.hasRemaining Token.isEnd
  rw [h.here]

end TokenStream.Alike

namespace Parser

variable {α β γ δ κ : Type} {R : α → β → Prop} {S : γ → δ → Prop}

/-- On streams that read alike, two parsers do the same, and their results are as `R` says. -/
def Alike (R : α → β → Prop) (p : Parser α) (q : Parser β) : Prop :=
  ∀ ⦃s t : TokenStream⦄, s.Alike t →
    Related ParseError.Alike TokenStream.Alike R (p s) (q t)

/-- Results that have the same image under `f`. -/
abbrev Same (f : α → κ) (a b : α) : Prop := f a = f b

/-- Statements whose spans are still open, and which are the same whatever these will be. -/
def SameForm (build build' : Unplaced) : Prop :=
  ∀ span span', (build span).erase = (build' span').erase

/-! ### Combinators -/

theorem alike_pure {a : α} {b : β} (h : R a b) : Alike R (pure a) (pure b) :=
  fun _ _ hst => .ok h hst

theorem alike_bind {p : Parser α} {q : Parser β} {f : α → Parser γ} {g : β → Parser δ}
    (hp : Alike R p q) (hf : ∀ a b, R a b → Alike S (f a) (g b)) :
    Alike S (p >>= f) (q >>= g) :=
  fun _ _ hst => (hp hst).bind fun a b _ _ hab hst' => hf a b hab hst'

theorem alike_ite {b c : Bool} {p p' : Parser α} {q q' : Parser β} (hbc : b = c)
    (hp : Alike R p q) (hp' : Alike R p' q') :
    Alike R (if b then p else p') (if c then q else q') := by
  subst hbc
  cases b
  · exact hp'
  · exact hp

theorem alike_fail (cause : ParseError.Cause) : Alike R (fail cause) (fail cause) :=
  fun _ _ hst => .error ⟨rfl, hst.here⟩ hst

theorem alike_failAt (cause : ParseError.Cause) {t u : Token} (h : t.lexeme = u.lexeme) :
    Alike R (failAt cause t) (failAt cause u) :=
  fun _ _ hst => .error ⟨rfl, h⟩ hst

theorem alike_advance : Alike (Same Token.lexeme) advance advance :=
  fun _ _ hst => .ok hst.here hst.advance

/-- What follows a look at the current token sees one lexeme, in two places. -/
theorem alike_peek_bind {f : Token → Parser γ} {g : Token → Parser δ}
    (h : ∀ l a b, Alike S (f ⟨l, a⟩) (g ⟨l, b⟩)) : Alike S (peek >>= f) (peek >>= g) := by
  intro s t hst
  have hmatch : Alike S (f s.here) (g ⟨s.here.lexeme, t.here.span⟩) := h _ _ _
  rw [hst.here] at hmatch
  exact hmatch hst

theorem alike_peekNth_bind (n : Nat) {f : Token → Parser γ} {g : Token → Parser δ}
    (h : ∀ l a b, Alike S (f ⟨l, a⟩) (g ⟨l, b⟩)) : Alike S (peekNth n >>= f) (peekNth n >>= g) := by
  intro s t hst
  have hmatch : Alike S (f (s.peekNth n)) (g ⟨(s.peekNth n).lexeme, (t.peekNth n).span⟩) :=
    h _ _ _
  rw [hst.peekNth n] at hmatch
  exact hmatch hst

/-! ### Single tokens -/

theorem alike_accept (mark : Symbol) : Alike Eq (accept mark) (accept mark) :=
  alike_peek_bind fun _ _ _ =>
    alike_ite rfl (alike_bind alike_advance fun _ _ _ => alike_pure rfl) (alike_pure rfl)

theorem alike_acceptKeyword (word : Keyword) :
    Alike Eq (acceptKeyword word) (acceptKeyword word) :=
  alike_peek_bind fun _ _ _ =>
    alike_ite rfl (alike_bind alike_advance fun _ _ _ => alike_pure rfl) (alike_pure rfl)

theorem alike_expect (mark : Symbol) (cause : ParseError.Cause) :
    Alike (Same Token.lexeme) (expect mark cause) (expect mark cause) :=
  alike_peek_bind fun _ _ _ => alike_ite rfl alike_advance (alike_fail cause)

theorem alike_expectKeyword (word : Keyword) :
    Alike (Same Token.lexeme) (expectKeyword word) (expectKeyword word) :=
  alike_peek_bind fun _ _ _ => alike_ite rfl alike_advance (alike_fail _)

theorem alike_identifier (cause : ParseError.Cause) :
    Alike (Same Prod.fst) (identifier cause) (identifier cause) := by
  refine alike_peek_bind fun l a b => ?_
  cases l with
  | identifier name => exact alike_bind alike_advance fun _ _ _ => alike_pure rfl
  | number _ | quoted _ | keyword _ | symbol _ | endOfInput => exact alike_fail cause

theorem alike_spanFrom (start start' : Nat) :
    Alike (fun _ _ => True) (spanFrom start) (spanFrom start') :=
  fun _ _ hst => .ok trivial hst

theorem alike_items {f : α → κ} {item item' : Parser α} (close : Symbol)
    (hitem : Alike (Same f) item item') (rounds : Nat) :
    Alike (Same (List.map f)) (items close item rounds) (items close item' rounds) := by
  induction rounds with
  | zero => exact alike_fail _
  | succ rounds ih =>
    refine alike_peek_bind fun l a b => alike_ite rfl (alike_pure rfl) ?_
    refine alike_bind hitem fun first first' hfirst => ?_
    refine alike_bind (alike_accept .comma) fun more _ hmore => ?_
    subst hmore
    refine alike_ite rfl ?_ (alike_pure (by simp only [Same, List.map_cons, List.map_nil, hfirst]))
    refine alike_bind ih fun others others' hothers => alike_pure ?_
    simp only [Same, List.map_cons] at hothers ⊢
    rw [hfirst, hothers]

/-! ### Expressions -/

section Expressions

variable {operand operand' expr expr' : Parser (Expr Span)}
variable {body body' : Parser (List (Stmt Span))}

theorem alike_binaryRest (level : List (Symbol × BinaryOp))
    (hoperand : Alike (Same Expr.erase) operand operand') (rounds : Nat) {left left' : Expr Span}
    (hleft : left.erase = left'.erase) :
    Alike (Same Expr.erase) (binaryRest level operand rounds left)
      (binaryRest level operand' rounds left') := by
  induction rounds generalizing left left' with
  | zero => exact alike_fail _
  | succ rounds ih =>
    refine alike_peek_bind fun l a b => ?_
    have hop : operator? level ⟨l, a⟩ = operator? level ⟨l, b⟩ := rfl
    rw [hop]
    cases operator? level ⟨l, b⟩ with
    | none => exact alike_pure hleft
    | some op =>
      refine alike_bind alike_advance fun _ _ _ => ?_
      refine alike_bind hoperand fun right right' hright => ih ?_
      simp only [Same, Expr.erase, Expr.mapAnn] at hleft hright ⊢
      rw [hleft, hright]

theorem alike_binaryLevel (rounds : Nat) (level : List (Symbol × BinaryOp))
    (hoperand : Alike (Same Expr.erase) operand operand') :
    Alike (Same Expr.erase) (binaryLevel rounds level operand)
      (binaryLevel rounds level operand') :=
  alike_bind hoperand fun _ _ hleft => alike_binaryRest level hoperand rounds hleft

theorem alike_unary (hoperand : Alike (Same Expr.erase) operand operand') (rounds : Nat) :
    Alike (Same Expr.erase) (unary operand rounds) (unary operand' rounds) := by
  induction rounds with
  | zero => exact alike_fail _
  | succ rounds ih =>
    refine alike_peek_bind fun l a b => ?_
    have hop : unaryOperator? ⟨l, a⟩ = unaryOperator? ⟨l, b⟩ := rfl
    rw [hop]
    cases unaryOperator? ⟨l, b⟩ with
    | none => exact hoperand
    | some op =>
      refine alike_bind alike_advance fun _ _ _ => ?_
      refine alike_bind ih fun right right' hright => alike_pure ?_
      simp only [Same, Expr.erase, Expr.mapAnn] at hright ⊢
      rw [hright]

theorem alike_parameterNames (rounds : Nat) :
    Alike Eq (parameterNames rounds) (parameterNames rounds) := by
  induction rounds with
  | zero => exact alike_fail _
  | succ rounds ih =>
    refine alike_bind (alike_identifier _) fun first first' hfirst => ?_
    refine alike_bind (alike_accept .comma) fun more _ hmore => ?_
    subst hmore
    refine alike_ite rfl ?_ (alike_pure (by rw [hfirst]))
    refine alike_bind ih fun rest _ hrest => alike_pure ?_
    rw [hfirst, hrest]

theorem alike_parameters (rounds : Nat) : Alike Eq (parameters rounds) (parameters rounds) :=
  alike_peek_bind fun _ _ _ => alike_ite rfl (alike_pure rfl) (alike_parameterNames rounds)

/-- The code of a function: its parameters, and its body up to spans. -/
abbrev codeErase (code : List String × List (Stmt Span)) : List String × List (Stmt Unit) :=
  (code.1, code.2.map Stmt.erase)

theorem alike_functionRest (rounds : Nat) (hbody : Alike (Same (List.map Stmt.erase)) body body') :
    Alike (Same codeErase) (functionRest rounds body) (functionRest rounds body') := by
  refine alike_bind (alike_expect _ _) fun _ _ _ => ?_
  refine alike_bind (alike_parameters rounds) fun params _ hparams => ?_
  refine alike_bind (alike_expect _ _) fun _ _ _ => ?_
  refine alike_bind hbody fun statements statements' hstatements => alike_pure ?_
  exact Prod.ext hparams hstatements

/-- The entry of a map: its key, and its value up to spans. -/
abbrev entryErase (entry : String × Expr Span) : String × Expr Unit := (entry.1, entry.2.erase)

theorem alike_mapEntry (hexpr : Alike (Same Expr.erase) expr expr') :
    Alike (Same entryErase) (mapEntry expr) (mapEntry expr') := by
  refine alike_bind alike_advance fun t u htu => ?_
  have hkey : t.key? = u.key? := by
    unfold Token.key?
    rw [htu]
  rw [hkey]
  cases u.key? with
  | none => exact alike_failAt _ htu
  | some key =>
    refine alike_bind (alike_expect _ _) fun _ _ _ => ?_
    exact alike_bind hexpr fun value value' hvalue => alike_pure (Prod.ext rfl hvalue)

theorem alike_literalName : Alike Eq literalName literalName :=
  alike_peek_bind fun _ _ _ =>
    alike_ite rfl
      (alike_bind (alike_identifier _) fun _ _ hname => alike_pure (congrArg some hname))
      (alike_pure rfl)

/-- A token that is an expression by itself, the same whatever its span. -/
theorem alike_word {e e' : Expr Span} (h : e.erase = e'.erase) :
    Alike (Same Expr.erase) (advance >>= fun _ => pure e) (advance >>= fun _ => pure e') :=
  alike_bind alike_advance fun _ _ _ => alike_pure h

theorem alike_primary (rounds : Nat) (hexpr : Alike (Same Expr.erase) expr expr')
    (hbody : Alike (Same (List.map Stmt.erase)) body body') :
    Alike (Same Expr.erase) (primary rounds expr body) (primary rounds expr' body') := by
  refine alike_peek_bind fun l a b => ?_
  cases l with
  | number numeral =>
    refine alike_bind alike_advance fun _ _ _ => ?_
    cases Numeral.read? numeral with
    | some value => exact alike_pure rfl
    | none => exact alike_failAt _ rfl
  | quoted content => exact alike_word rfl
  | identifier name => exact alike_word rfl
  | endOfInput => exact alike_fail _
  | keyword word =>
    cases word
    case trueWord | falseWord | undefined => exact alike_word rfl
    case function =>
      refine alike_bind alike_advance fun _ _ _ => ?_
      refine alike_bind alike_literalName fun name _ hname => ?_
      refine alike_bind (alike_functionRest rounds hbody) fun code code' hcode => ?_
      refine alike_bind (alike_spanFrom _ _) fun _ _ _ => alike_pure ?_
      obtain ⟨hparams, hstatements⟩ := Prod.ext_iff.mp hcode
      simp only [Same, Expr.erase_lambda] at hparams hstatements ⊢
      rw [hname, hparams, hstatements]
    all_goals exact alike_fail _
  | symbol mark =>
    cases mark
    case leftParen =>
      refine alike_bind alike_advance fun _ _ _ => ?_
      refine alike_bind hexpr fun inner inner' hinner => ?_
      refine alike_bind (alike_expect _ _) fun _ _ _ => alike_pure ?_
      simpa only [Same, Expr.erase_setAnn] using hinner
    case leftBracket =>
      refine alike_bind alike_advance fun _ _ _ => ?_
      refine alike_bind (alike_items _ hexpr rounds) fun elements elements' helements => ?_
      refine alike_bind (alike_expect _ _) fun _ _ _ => alike_pure ?_
      simp only [Same, Expr.erase_array] at helements ⊢
      rw [helements]
    case leftBrace =>
      refine alike_bind alike_advance fun _ _ _ => ?_
      have hentry := alike_mapEntry hexpr
      refine alike_bind (alike_items _ hentry rounds) fun entries entries' hentries => ?_
      refine alike_bind (alike_expect _ _) fun _ _ _ => alike_pure ?_
      simp only [Same, Expr.erase_map] at hentries ⊢
      rw [hentries]
    all_goals exact alike_fail _

theorem alike_postfixRest (hexpr : Alike (Same Expr.erase) expr expr') (rounds : Nat)
    {left left' : Expr Span} (hleft : left.erase = left'.erase) :
    Alike (Same Expr.erase) (postfixRest expr rounds left) (postfixRest expr' rounds left') := by
  induction rounds generalizing left left' with
  | zero => exact alike_fail _
  | succ rounds ih =>
    refine alike_peek_bind fun l a b => ?_
    cases l with
    | symbol mark =>
      cases mark
      case leftParen =>
        refine alike_bind alike_advance fun _ _ _ => ?_
        refine alike_bind (alike_items _ hexpr rounds) fun args args' hargs => ?_
        refine alike_bind (alike_expect _ _) fun _ _ _ => ih ?_
        simp only [Same, Expr.erase_call] at hargs ⊢
        rw [hleft, hargs]
      case leftBracket =>
        refine alike_bind alike_advance fun _ _ _ => ?_
        refine alike_bind hexpr fun key key' hkey => ?_
        refine alike_bind (alike_expect _ _) fun _ _ _ => ih ?_
        simp only [Same, Expr.erase, Expr.mapAnn] at hleft hkey ⊢
        rw [hleft, hkey]
      case dot =>
        refine alike_bind alike_advance fun _ _ _ => ?_
        refine alike_bind (alike_identifier _) fun member member' hmember => ih ?_
        simp only [Same, Expr.erase, Expr.mapAnn] at hleft hmember ⊢
        rw [hleft, hmember]
      all_goals exact alike_pure hleft
    | identifier _ | number _ | quoted _ | keyword _ | endOfInput => exact alike_pure hleft

theorem alike_applied (rounds : Nat) (hexpr : Alike (Same Expr.erase) expr expr')
    (hbody : Alike (Same (List.map Stmt.erase)) body body') :
    Alike (Same Expr.erase) (applied rounds expr body) (applied rounds expr' body') :=
  alike_bind (alike_primary rounds hexpr hbody) fun _ _ hhead =>
    alike_postfixRest hexpr rounds hhead

theorem alike_operation (rounds : Nat) (hexpr : Alike (Same Expr.erase) expr expr')
    (hbody : Alike (Same (List.map Stmt.erase)) body body') :
    Alike (Same Expr.erase) (operation rounds expr body) (operation rounds expr' body') := by
  have hunary := alike_unary (alike_applied rounds hexpr hbody) rounds
  unfold operation
  generalize binaryLevels = levels
  induction levels with
  | nil => exact hunary
  | cons level levels ih => exact alike_binaryLevel rounds level ih

theorem alike_assignment (rounds : Nat) (hexpr : Alike (Same Expr.erase) expr expr')
    (hbody : Alike (Same (List.map Stmt.erase)) body body') :
    Alike (Same Expr.erase) (assignment rounds expr body) (assignment rounds expr' body') := by
  refine alike_bind (alike_operation rounds hexpr hbody) fun left left' hleft => ?_
  refine alike_peek_bind fun l a b => alike_ite rfl ?_ (alike_pure hleft)
  refine alike_bind alike_advance fun _ _ _ => ?_
  refine alike_bind hexpr fun value value' hvalue => ?_
  -- the left sides are both places or both not, since their trees agree
  have htarget := congrArg Expr.toTarget? hleft
  simp only [Expr.erase, Expr.toTarget?_mapAnn] at htarget
  cases hplace : left.toTarget? with
  | none =>
    rw [hplace, Option.map_none, eq_comm, Option.map_eq_none_iff] at htarget
    rw [htarget]
    exact alike_failAt _ rfl
  | some target =>
    rw [hplace, Option.map_some, eq_comm, Option.map_eq_some_iff] at htarget
    obtain ⟨target', hplace', htarget⟩ := htarget
    rw [hplace']
    refine alike_pure ?_
    simp only [Same, Expr.erase, Expr.mapAnn] at hvalue ⊢
    rw [htarget, hvalue]

end Expressions

/-! ### Statements -/

section Statements

variable {expr expr' : Parser (Expr Span)} {stmt stmt' : Parser (Stmt Span)}

theorem alike_statements (hstmt : Alike (Same Stmt.erase) stmt stmt') (rounds : Nat) :
    Alike (Same (List.map Stmt.erase)) (statements stmt rounds) (statements stmt' rounds) := by
  induction rounds with
  | zero => exact alike_fail _
  | succ rounds ih =>
    refine alike_peek_bind fun l a b => alike_ite rfl (alike_pure rfl) ?_
    refine alike_bind hstmt fun first first' hfirst => ?_
    refine alike_bind ih fun rest rest' hrest => alike_pure ?_
    simp only [Same, List.map_cons] at hrest ⊢
    rw [hfirst, hrest]

theorem alike_block (rounds : Nat) (hstmt : Alike (Same Stmt.erase) stmt stmt') :
    Alike (Same (List.map Stmt.erase)) (block rounds stmt) (block rounds stmt') := by
  refine alike_bind (alike_expect _ _) fun _ _ _ => ?_
  refine alike_bind (alike_statements hstmt rounds) fun body body' hbody => ?_
  exact alike_bind (alike_expect _ _) fun _ _ _ => alike_pure hbody

theorem alike_branch (rounds : Nat) (hstmt : Alike (Same Stmt.erase) stmt stmt') :
    Alike (Same (List.map Stmt.erase)) (branch rounds stmt) (branch rounds stmt') := by
  refine alike_peek_bind fun l a b => alike_ite rfl (alike_block rounds hstmt) ?_
  refine alike_bind hstmt fun single single' hsingle => alike_pure ?_
  simp only [Same, List.map_cons, List.map_nil]
  rw [hsingle]

theorem alike_condition (hexpr : Alike (Same Expr.erase) expr expr') :
    Alike (Same Expr.erase) (condition expr) (condition expr') := by
  refine alike_bind (alike_expect _ _) fun _ _ _ => ?_
  refine alike_bind hexpr fun value value' hvalue => ?_
  exact alike_bind (alike_expect _ _) fun _ _ _ => alike_pure hvalue

theorem alike_startsMap : Alike Eq startsMap startsMap :=
  alike_peekNth_bind 1 fun _ _ _ => alike_peekNth_bind 2 fun _ _ _ => alike_pure rfl

theorem alike_letStatement (hexpr : Alike (Same Expr.erase) expr expr') :
    Alike SameForm (letStatement expr) (letStatement expr') := by
  refine alike_bind (alike_expectKeyword _) fun _ _ _ => ?_
  refine alike_bind (alike_identifier _) fun name name' hname => ?_
  refine alike_bind (alike_accept _) fun given _ hgiven => ?_
  subst hgiven
  refine alike_ite rfl (alike_bind hexpr fun value value' hvalue => alike_pure ?_)
    (alike_pure ?_)
  · intro span span'
    simp only [Same, Expr.erase, Stmt.erase, Stmt.mapAnn] at hname hvalue ⊢
    rw [hname, hvalue]
  · intro span span'
    simp only [Same, Stmt.erase, Stmt.mapAnn] at hname ⊢
    rw [hname]

theorem alike_functionStatement (rounds : Nat) (hstmt : Alike (Same Stmt.erase) stmt stmt') :
    Alike SameForm (functionStatement rounds stmt) (functionStatement rounds stmt') := by
  refine alike_bind (alike_expectKeyword _) fun _ _ _ => ?_
  refine alike_bind (alike_identifier _) fun name name' hname => ?_
  refine alike_bind (alike_functionRest rounds (alike_block rounds hstmt)) fun code code' h => ?_
  refine alike_pure fun span span' => ?_
  obtain ⟨hparams, hbody⟩ := Prod.ext_iff.mp h
  simp only [Same, Stmt.erase_function] at hname hparams hbody ⊢
  rw [hname, hparams, hbody]

theorem alike_ifStatement (rounds : Nat) (hexpr : Alike (Same Expr.erase) expr expr')
    (hstmt : Alike (Same Stmt.erase) stmt stmt') :
    Alike SameForm (ifStatement rounds expr stmt) (ifStatement rounds expr' stmt') := by
  refine alike_bind (alike_expectKeyword _) fun _ _ _ => ?_
  refine alike_bind (alike_condition hexpr) fun test test' htest => ?_
  refine alike_bind (alike_branch rounds hstmt) fun yes yes' hyes => ?_
  refine alike_bind (alike_acceptKeyword _) fun given _ hgiven => ?_
  subst hgiven
  refine alike_ite rfl
    (alike_bind (alike_branch rounds hstmt) fun no no' hno => alike_pure ?_) (alike_pure ?_)
  · intro span span'
    simp only [Same, Stmt.erase_ifElse, Option.map_some] at hyes hno ⊢
    rw [htest, hyes, hno]
  · intro span span'
    simp only [Same, Stmt.erase_ifElse, Option.map_none] at hyes ⊢
    rw [htest, hyes]

theorem alike_whileStatement (rounds : Nat) (hexpr : Alike (Same Expr.erase) expr expr')
    (hstmt : Alike (Same Stmt.erase) stmt stmt') :
    Alike SameForm (whileStatement rounds expr stmt) (whileStatement rounds expr' stmt') := by
  refine alike_bind (alike_expectKeyword _) fun _ _ _ => ?_
  refine alike_bind (alike_condition hexpr) fun test test' htest => ?_
  refine alike_bind (alike_branch rounds hstmt) fun body body' hbody => ?_
  refine alike_pure fun span span' => ?_
  simp only [Same, Stmt.erase_whileLoop] at hbody ⊢
  rw [htest, hbody]

theorem alike_forStatement (rounds : Nat) (hexpr : Alike (Same Expr.erase) expr expr')
    (hstmt : Alike (Same Stmt.erase) stmt stmt') :
    Alike SameForm (forStatement rounds expr stmt) (forStatement rounds expr' stmt') := by
  refine alike_bind (alike_expectKeyword _) fun _ _ _ => ?_
  refine alike_bind (alike_expect _ _) fun _ _ _ => ?_
  refine alike_bind (alike_identifier _) fun name name' hname => ?_
  refine alike_bind (alike_expectKeyword _) fun _ _ _ => ?_
  refine alike_bind hexpr fun value value' hvalue => ?_
  refine alike_bind (alike_expect _ _) fun _ _ _ => ?_
  refine alike_bind (alike_branch rounds hstmt) fun body body' hbody => ?_
  refine alike_pure fun span span' => ?_
  simp only [Same, Stmt.erase_forEach] at hname hbody ⊢
  rw [hname, hvalue, hbody]

theorem alike_tryStatement (rounds : Nat) (hstmt : Alike (Same Stmt.erase) stmt stmt') :
    Alike SameForm (tryStatement rounds stmt) (tryStatement rounds stmt') := by
  refine alike_bind (alike_expectKeyword _) fun _ _ _ => ?_
  refine alike_bind (alike_block rounds hstmt) fun body body' hbody => ?_
  refine alike_bind (alike_expectKeyword _) fun _ _ _ => ?_
  refine alike_bind (alike_expect _ _) fun _ _ _ => ?_
  refine alike_bind (alike_identifier _) fun name name' hname => ?_
  refine alike_bind (alike_expect _ _) fun _ _ _ => ?_
  refine alike_bind (alike_block rounds hstmt) fun handler handler' hhandler => ?_
  refine alike_pure fun span span' => ?_
  simp only [Same, Stmt.erase_tryCatch] at hname hbody hhandler ⊢
  rw [hname, hbody, hhandler]

theorem alike_throwStatement (hexpr : Alike (Same Expr.erase) expr expr') :
    Alike SameForm (throwStatement expr) (throwStatement expr') := by
  refine alike_bind (alike_expectKeyword _) fun _ _ _ => ?_
  refine alike_bind hexpr fun value value' hvalue => alike_pure fun span span' => ?_
  exact congrArg (Stmt.throw ()) hvalue

theorem alike_returnStatement (hexpr : Alike (Same Expr.erase) expr expr') :
    Alike SameForm (returnStatement expr) (returnStatement expr') := by
  refine alike_bind (alike_expectKeyword _) fun _ _ _ => ?_
  refine alike_peek_bind fun l a b => alike_ite rfl (alike_pure fun _ _ => rfl) ?_
  refine alike_bind hexpr fun value value' hvalue => alike_pure fun span span' => ?_
  exact congrArg (fun e => Stmt.ret () (some e)) hvalue

theorem alike_expressionStatement (hexpr : Alike (Same Expr.erase) expr expr') :
    Alike SameForm (expressionStatement expr) (expressionStatement expr') :=
  alike_bind hexpr fun _ _ hvalue => alike_pure fun _ _ => congrArg (Stmt.expr ()) hvalue

theorem alike_statementForm (rounds : Nat) (hexpr : Alike (Same Expr.erase) expr expr')
    (hstmt : Alike (Same Stmt.erase) stmt stmt') :
    Alike SameForm (statementForm rounds expr stmt) (statementForm rounds expr' stmt') := by
  have hother := alike_expressionStatement hexpr
  refine alike_peek_bind fun l a b => ?_
  cases l with
  | keyword word =>
    cases word
    case letWord => exact alike_letStatement hexpr
    case function =>
      exact alike_peekNth_bind 1 fun _ _ _ =>
        alike_ite rfl (alike_functionStatement rounds hstmt) hother
    case ifWord => exact alike_ifStatement rounds hexpr hstmt
    case whileWord => exact alike_whileStatement rounds hexpr hstmt
    case forWord => exact alike_forStatement rounds hexpr hstmt
    case tryWord => exact alike_tryStatement rounds hstmt
    case throwWord => exact alike_throwStatement hexpr
    case returnWord => exact alike_returnStatement hexpr
    case breakWord | continueWord =>
      exact alike_bind alike_advance fun _ _ _ => alike_pure fun _ _ => rfl
    all_goals exact hother
  | symbol mark =>
    cases mark
    case leftBrace =>
      refine alike_bind alike_startsMap fun opens _ hopens => ?_
      subst hopens
      refine alike_ite rfl hother ?_
      refine alike_bind (alike_block rounds hstmt) fun body body' hbody => ?_
      refine alike_pure fun span span' => ?_
      simp only [Same, Stmt.erase_block] at hbody ⊢
      rw [hbody]
    all_goals exact hother
  | identifier _ | number _ | quoted _ | endOfInput => exact hother

theorem alike_placedStatement (rounds : Nat) (hexpr : Alike (Same Expr.erase) expr expr')
    (hstmt : Alike (Same Stmt.erase) stmt stmt') :
    Alike (Same Stmt.erase) (placedStatement rounds expr stmt)
      (placedStatement rounds expr' stmt') := by
  refine alike_peek_bind fun l a b => ?_
  refine alike_bind (alike_statementForm rounds hexpr hstmt) fun form form' hform => ?_
  refine alike_bind (alike_spanFrom _ _) fun span span' _ => ?_
  exact alike_bind (alike_accept _) fun _ _ _ => alike_pure (hform span span')

end Statements

/-- The two parsers that tie the knot, by induction on the depth. -/
theorem alike_expression_statement (depth : Nat) :
    Alike (Same Expr.erase) (expression depth) (expression depth) ∧
      Alike (Same Stmt.erase) (statement depth) (statement depth) := by
  induction depth with
  | zero => exact ⟨alike_fail _, alike_fail _⟩
  | succ depth ih =>
    obtain ⟨hexpr, hstmt⟩ := ih
    exact ⟨alike_assignment depth hexpr (alike_block depth hstmt),
      alike_placedStatement depth hexpr hstmt⟩

end Parser

/-- **The next statements of streams that read alike.**  Either both streams yield a statement, and
the two are equal up to spans, or both fail in the same way.  In both cases the streams after it
read alike again. -/
theorem TokenStream.Alike.parseNext {s t : TokenStream} (h : s.Alike t) :
    (∃ a b s' t', s.parseNext = (.ok a, s') ∧ t.parseNext = (.ok b, t') ∧ a.erase = b.erase ∧
      s'.Alike t') ∨
    ∃ e f s' t', s.parseNext = (.error e, s') ∧ t.parseNext = (.error f, t') ∧ e.Alike f ∧
      s'.Alike t' := by
  have hbound : s.depthBound = t.depthBound := by
    unfold depthBound
    rw [h.remaining]
  have hrelated := (Parser.alike_expression_statement s.depthBound).2 h
  unfold TokenStream.parseNext
  rw [← hbound]
  generalize hs : Parser.statement s.depthBound s = r at hrelated
  generalize ht : Parser.statement s.depthBound t = r' at hrelated
  cases hrelated with
  | ok hvalue hstate => exact .inl ⟨_, _, _, _, rfl, rfl, hvalue, hstate⟩
  | error herror hstate => exact .inr ⟨_, _, _, _, rfl, rfl, herror, hstate⟩

end Script
