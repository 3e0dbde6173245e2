import Script.Parser.Stmt
import Script.Proofs.Grammar.Passing

/-!
# What the parser complains of

However a parser ends, it has moved forward through the stream.  If it fails, then it complains of a
token that it has passed or stands at, and it calls a numeral malformed only if the numeral cannot
be read.

A parser may remember a token and complain of it later.  So the tokens that have been seen are kept
in view: a complaint is of one of these, or of one that the parser has met itself.

## Main definitions

* `ParseError.Founded`: errors that call a numeral malformed only if it is.
* `Parser.Blames`: parsers that move forward, and complain of tokens that they have met.

## Main results

* `Parser.blames_expression_statement`: expressions and statements.
* `TokenStream.founded_of_parseNext`: the next statement of a stream.
-/

namespace Script

/-- A numeral is called malformed only if it cannot be read. -/
def ParseError.Founded (e : ParseError) : Prop :=
  e.cause = .malformedNumeral →
    ∃ numeral, e.token.lexeme = .number numeral ∧ Numeral.read? numeral = none

theorem ParseError.founded_of_ne {cause : ParseError.Cause} (h : cause ≠ .malformedNumeral)
    (token : Token) : Founded ⟨cause, token⟩ :=
  fun heq => absurd heq h

namespace Parser

variable {α β : Type} {s s' : TokenStream} {seen : List Token} {token : Token}

/-- How a parser may end that started at `s` when the tokens `seen` had been seen. -/
inductive Charged (seen : List Token) (s : TokenStream) :
    EStateM.Result ParseError TokenStream α → Prop
  | ok {a s' ts} (hpass : s.Passes ts s') : Charged seen s (.ok a s')
  | error {e s' ts} (hpass : s.Passes ts s') (htoken : e.token ∈ seen ++ (ts ++ [s'.here]))
      (hfounded : e.Founded) : Charged seen s (.error e s')

/-- A parser moves forward, and complains of nothing but tokens that were seen before or that it has
met on its way. -/
def Blames (seen : List Token) (p : Parser α) : Prop :=
  ∀ s : TokenStream, s.Closed → Charged seen s (p s)

/-! ### Combinators -/

theorem Blames.weaken {p : Parser α} (h : Blames [] p) (seen : List Token) : Blames seen p := by
  intro s hs
  have hp := h s hs
  generalize p s = r at hp ⊢
  cases hp with
  | ok hpass => exact .ok hpass
  | error hpass htoken hfounded =>
    exact .error hpass (List.mem_append_right seen htoken) hfounded

theorem blames_pure (a : α) : Blames seen (pure a : Parser α) := fun s _ => .ok (.refl s)

theorem blames_bind {p : Parser α} {f : α → Parser β} (hp : Blames seen p)
    (hf : ∀ a, Blames seen (f a)) : Blames seen (p >>= f) := by
  intro s hs
  have hfirst := hp s hs
  show Charged seen s (EStateM.bind p f s)
  unfold EStateM.bind
  generalize p s = r at hfirst ⊢
  cases hfirst with
  | error hpass htoken hfounded => exact .error hpass htoken hfounded
  | @ok a t ts hpass =>
    have hsecond := hf a t (hpass.closed hs)
    simp only
    generalize f a t = r at hsecond ⊢
    cases hsecond with
    | ok hpass' => exact .ok (hpass.trans hpass')
    | error hpass' htoken hfounded =>
      refine .error (hpass.trans hpass') ?_ hfounded
      simp only [List.mem_append] at htoken ⊢
      grind

/-- A token that is seen where the parser starts is one that it meets. -/
theorem Charged.of_here {r : EStateM.Result ParseError TokenStream α}
    (h : Charged (s.here :: seen) s r) : Charged seen s r := by
  cases h with
  | ok hpass => exact .ok hpass
  | @error e t ts hpass htoken hfounded =>
    have hhere : s.here ∈ ts ++ [t.here] := by
      rw [hpass.here_eq_headD]
      cases ts <;> simp
    refine .error hpass ?_ hfounded
    rcases List.mem_cons.mp htoken with heq | hmem
    · rw [heq]
      exact List.mem_append_right seen hhere
    · exact hmem

theorem blames_peek_bind {f : Token → Parser β} (h : ∀ token, Blames (token :: seen) (f token)) :
    Blames seen (peek >>= f) :=
  fun s hs => (h s.here s hs).of_here

theorem passes_advance_of_closed (hs : s.Closed) : ∃ ts, s.Passes ts s.advance := by
  by_cases hend : s.here.isEnd = true
  · have hstay : s.advance = s := by simp [TokenStream.advance, hend]
    rw [hstay]
    exact ⟨[], .refl s⟩
  · exact ⟨[s.here], TokenStream.passes_advance hs (by simpa using hend)⟩

theorem blames_advance : Blames seen advance := by
  intro s hs
  obtain ⟨ts, hpass⟩ := passes_advance_of_closed hs
  exact .ok hpass

/-- The token that is moved past may be complained of later. -/
theorem blames_advance_bind {f : Token → Parser β}
    (h : ∀ token, Blames (token :: seen) (f token)) : Blames seen (advance >>= f) := by
  have hmoved : Blames seen (peek >>= fun token => advance >>= fun _ => f token) :=
    blames_peek_bind fun token => blames_bind blames_advance fun _ => h token
  exact hmoved

theorem blames_peekNth_bind (n : Nat) {f : Token → Parser β} (h : ∀ token, Blames seen (f token)) :
    Blames seen (peekNth n >>= f) :=
  blames_bind (fun s _ => .ok (.refl s)) h

theorem blames_spanFrom (start : Nat) : Blames seen (spanFrom start) := fun s _ => .ok (.refl s)

theorem blames_fail {cause : ParseError.Cause} (h : cause ≠ .malformedNumeral) :
    Blames seen (fail cause : Parser α) :=
  fun s _ => .error (.refl s) (by simp [TokenStream.peek]) (ParseError.founded_of_ne h _)

theorem blames_failAt {cause : ParseError.Cause} (htoken : token ∈ seen)
    (hfounded : ParseError.Founded ⟨cause, token⟩) : Blames seen (failAt cause token : Parser α) :=
  fun s _ => .error (.refl s) (List.mem_append_left _ htoken) hfounded

/-! ### Single tokens -/

theorem blames_accept (mark : Symbol) : Blames seen (accept mark) := by
  refine blames_peek_bind fun token => ?_
  split
  · exact blames_bind blames_advance fun _ => blames_pure _
  · exact blames_pure _

theorem blames_acceptKeyword (word : Keyword) : Blames seen (acceptKeyword word) := by
  refine blames_peek_bind fun token => ?_
  split
  · exact blames_bind blames_advance fun _ => blames_pure _
  · exact blames_pure _

theorem blames_expect (mark : Symbol) {cause : ParseError.Cause} (h : cause ≠ .malformedNumeral) :
    Blames seen (expect mark cause) := by
  refine blames_peek_bind fun token => ?_
  split
  · exact blames_advance
  · exact blames_fail h

theorem blames_expectKeyword (word : Keyword) : Blames seen (expectKeyword word) := by
  refine blames_peek_bind fun token => ?_
  split
  · exact blames_advance
  · exact blames_fail (by simp)

theorem blames_identifier {cause : ParseError.Cause} (h : cause ≠ .malformedNumeral) :
    Blames seen (identifier cause) := by
  refine blames_peek_bind fun token => ?_
  split
  · exact blames_bind blames_advance fun _ => blames_pure _
  · exact blames_fail h

theorem blames_items {item : Parser α} (close : Symbol) (hitem : Blames [] item) (rounds : Nat) :
    Blames seen (items close item rounds) := by
  induction rounds generalizing seen with
  | zero => exact blames_fail (by simp)
  | succ rounds ih =>
    refine blames_peek_bind fun token => ?_
    split
    · exact blames_pure _
    · refine blames_bind (hitem.weaken _) fun first => blames_bind (blames_accept _) fun more => ?_
      split
      · exact blames_bind ih fun _ => blames_pure _
      · exact blames_pure _

/-! ### Expressions -/

section Expressions

variable {operand expr : Parser (Expr Span)} {body : Parser (List (Stmt Span))}

theorem blames_binaryRest (level : List (Symbol × BinaryOp)) (hoperand : Blames [] operand)
    (rounds : Nat) (left : Expr Span) : Blames seen (binaryRest level operand rounds left) := by
  induction rounds generalizing seen left with
  | zero => exact blames_fail (by simp)
  | succ rounds ih =>
    refine blames_peek_bind fun token => ?_
    split
    · exact blames_pure _
    · exact blames_bind blames_advance fun _ => blames_bind (hoperand.weaken _) fun _ => ih _

theorem blames_unary (hoperand : Blames [] operand) (rounds : Nat) :
    Blames seen (unary operand rounds) := by
  induction rounds generalizing seen with
  | zero => exact blames_fail (by simp)
  | succ rounds ih =>
    refine blames_peek_bind fun token => ?_
    split
    · exact hoperand.weaken _
    · exact blames_bind blames_advance fun _ => blames_bind ih fun _ => blames_pure _

theorem blames_parameterNames (rounds : Nat) : Blames seen (parameterNames rounds) := by
  induction rounds generalizing seen with
  | zero => exact blames_fail (by simp)
  | succ rounds ih =>
    refine blames_bind (blames_identifier (by simp)) fun first => ?_
    refine blames_bind (blames_accept _) fun more => ?_
    split
    · exact blames_bind ih fun _ => blames_pure _
    · exact blames_pure _

theorem blames_functionRest (rounds : Nat) (hbody : Blames [] body) :
    Blames seen (functionRest rounds body) := by
  have hparameters : Blames seen (parameters rounds) := by
    refine blames_peek_bind fun token => ?_
    split
    · exact blames_pure _
    · exact blames_parameterNames rounds
  refine blames_bind (blames_expect _ (by simp)) fun _ => blames_bind hparameters fun _ => ?_
  refine blames_bind (blames_expect _ (by simp)) fun _ => ?_
  exact blames_bind (hbody.weaken _) fun _ => blames_pure _

theorem blames_mapEntry (hexpr : Blames [] expr) : Blames seen (mapEntry expr) := by
  refine blames_advance_bind fun token => ?_
  split
  · exact blames_failAt (List.mem_cons_self ..) (ParseError.founded_of_ne (by simp) _)
  · refine blames_bind (blames_expect _ (by simp)) fun _ => ?_
    exact blames_bind (hexpr.weaken _) fun _ => blames_pure _

theorem blames_literalName : Blames seen literalName := by
  refine blames_peek_bind fun token => ?_
  split
  · exact blames_bind (blames_identifier (by simp)) fun _ => blames_pure _
  · exact blames_pure _

/-- A token that is an expression by itself. -/
theorem blames_word (e : Expr Span) : Blames seen (advance >>= fun _ => pure e) :=
  blames_bind blames_advance fun _ => blames_pure _

theorem blames_primary (rounds : Nat) (hexpr : Blames [] expr) (hbody : Blames [] body) :
    Blames seen (primary rounds expr body) := by
  refine blames_peek_bind fun token => ?_
  split
  · next numeral hnumeral =>
    refine blames_bind blames_advance fun _ => ?_
    split
    · exact blames_pure _
    · next hread =>
      exact blames_failAt (List.mem_cons_self ..) fun _ => ⟨numeral, hnumeral, hread⟩
  · exact blames_word _
  · exact blames_word _
  · exact blames_word _
  · exact blames_word _
  · exact blames_word _
  · refine blames_bind blames_advance fun _ => blames_bind (hexpr.weaken _) fun _ => ?_
    exact blames_bind (blames_expect _ (by simp)) fun _ => blames_pure _
  · refine blames_bind blames_advance fun _ => ?_
    refine blames_bind (blames_items _ hexpr rounds) fun _ => ?_
    exact blames_bind (blames_expect _ (by simp)) fun _ => blames_pure _
  · refine blames_bind blames_advance fun _ => ?_
    refine blames_bind (blames_items _ (blames_mapEntry hexpr) rounds) fun _ => ?_
    exact blames_bind (blames_expect _ (by simp)) fun _ => blames_pure _
  · refine blames_bind blames_advance fun _ => blames_bind blames_literalName fun _ => ?_
    refine blames_bind (blames_functionRest rounds hbody) fun _ => ?_
    exact blames_bind (blames_spanFrom _) fun _ => blames_pure _
  · exact blames_fail (by simp)
  · exact blames_fail (by simp)

theorem blames_postfixRest (hexpr : Blames [] expr) (rounds : Nat) (left : Expr Span) :
    Blames seen (postfixRest expr rounds left) := by
  induction rounds generalizing seen left with
  | zero => exact blames_fail (by simp)
  | succ rounds ih =>
    refine blames_peek_bind fun token => ?_
    split
    · refine blames_bind blames_advance fun _ => ?_
      refine blames_bind (blames_items _ hexpr rounds) fun _ => ?_
      exact blames_bind (blames_expect _ (by simp)) fun _ => ih _
    · refine blames_bind blames_advance fun _ => blames_bind (hexpr.weaken _) fun _ => ?_
      exact blames_bind (blames_expect _ (by simp)) fun _ => ih _
    · refine blames_bind blames_advance fun _ => ?_
      exact blames_bind (blames_identifier (by simp)) fun _ => ih _
    · exact blames_pure _

theorem blames_operation (rounds : Nat) (hexpr : Blames [] expr) (hbody : Blames [] body) :
    Blames [] (operation rounds expr body) := by
  have happlied : Blames [] (applied rounds expr body) :=
    blames_bind (blames_primary rounds hexpr hbody) fun _ => blames_postfixRest hexpr rounds _
  unfold operation
  induction binaryLevels with
  | nil => exact blames_unary happlied rounds
  | cons level levels ih => exact blames_bind ih fun _ => blames_binaryRest level ih rounds _

/-- The mark of an assignment is remembered while its right side is read. -/
theorem blames_assignment (rounds : Nat) (hexpr : Blames [] expr) (hbody : Blames [] body) :
    Blames [] (assignment rounds expr body) := by
  refine blames_bind (blames_operation rounds hexpr hbody) fun left => ?_
  refine blames_peek_bind fun token => ?_
  split
  · refine blames_bind blames_advance fun _ => blames_bind (hexpr.weaken _) fun value => ?_
    split
    · exact blames_pure _
    · exact blames_failAt (List.mem_cons_self ..) (ParseError.founded_of_ne (by simp) _)
  · exact blames_pure _

end Expressions

/-! ### Statements -/

section Statements

variable {expr : Parser (Expr Span)} {stmt : Parser (Stmt Span)}

theorem blames_statements (hstmt : Blames [] stmt) (rounds : Nat) :
    Blames seen (statements stmt rounds) := by
  induction rounds generalizing seen with
  | zero => exact blames_fail (by simp)
  | succ rounds ih =>
    refine blames_peek_bind fun token => ?_
    split
    · exact blames_pure _
    · exact blames_bind (hstmt.weaken _) fun _ => blames_bind ih fun _ => blames_pure _

theorem blames_block (hstmt : Blames [] stmt) (rounds : Nat) : Blames seen (block rounds stmt) := by
  refine blames_bind (blames_expect _ (by simp)) fun _ => ?_
  refine blames_bind (blames_statements hstmt rounds) fun _ => ?_
  exact blames_bind (blames_expect _ (by simp)) fun _ => blames_pure _

theorem blames_branch (hstmt : Blames [] stmt) (rounds : Nat) :
    Blames seen (branch rounds stmt) := by
  refine blames_peek_bind fun token => ?_
  split
  · exact blames_block hstmt rounds
  · exact blames_bind (hstmt.weaken _) fun _ => blames_pure _

theorem blames_condition (hexpr : Blames [] expr) : Blames seen (condition expr) := by
  refine blames_bind (blames_expect _ (by simp)) fun _ => ?_
  refine blames_bind (hexpr.weaken _) fun _ => ?_
  exact blames_bind (blames_expect _ (by simp)) fun _ => blames_pure _

theorem blames_expressionStatement (hexpr : Blames [] expr) :
    Blames seen (expressionStatement expr) :=
  blames_bind (hexpr.weaken _) fun _ => blames_pure _

theorem blames_letStatement (hexpr : Blames [] expr) : Blames seen (letStatement expr) := by
  refine blames_bind (blames_expectKeyword _) fun _ => ?_
  refine blames_bind (blames_identifier (by simp)) fun _ => ?_
  refine blames_bind (blames_accept _) fun _ => ?_
  split
  · exact blames_bind (hexpr.weaken _) fun _ => blames_pure _
  · exact blames_pure _

theorem blames_functionStatement (hstmt : Blames [] stmt) (rounds : Nat) :
    Blames seen (functionStatement rounds stmt) := by
  refine blames_bind (blames_expectKeyword _) fun _ => ?_
  refine blames_bind (blames_identifier (by simp)) fun _ => ?_
  exact blames_bind (blames_functionRest rounds (blames_block hstmt rounds)) fun _ => blames_pure _

theorem blames_ifStatement (hexpr : Blames [] expr) (hstmt : Blames [] stmt) (rounds : Nat) :
    Blames seen (ifStatement rounds expr stmt) := by
  refine blames_bind (blames_expectKeyword _) fun _ => ?_
  refine blames_bind (blames_condition hexpr) fun _ => ?_
  refine blames_bind (blames_branch hstmt rounds) fun _ => ?_
  refine blames_bind (blames_acceptKeyword _) fun _ => ?_
  split
  · exact blames_bind (blames_branch hstmt rounds) fun _ => blames_pure _
  · exact blames_pure _

theorem blames_whileStatement (hexpr : Blames [] expr) (hstmt : Blames [] stmt) (rounds : Nat) :
    Blames seen (whileStatement rounds expr stmt) := by
  refine blames_bind (blames_expectKeyword _) fun _ => ?_
  refine blames_bind (blames_condition hexpr) fun _ => ?_
  exact blames_bind (blames_branch hstmt rounds) fun _ => blames_pure _

theorem blames_forStatement (hexpr : Blames [] expr) (hstmt : Blames [] stmt) (rounds : Nat) :
    Blames seen (forStatement rounds expr stmt) := by
  refine blames_bind (blames_expectKeyword _) fun _ => ?_
  refine blames_bind (blames_expect _ (by simp)) fun _ => ?_
  refine blames_bind (blames_identifier (by simp)) fun _ => ?_
  refine blames_bind (blames_expectKeyword _) fun _ => blames_bind (hexpr.weaken _) fun _ => ?_
  refine blames_bind (blames_expect _ (by simp)) fun _ => ?_
  exact blames_bind (blames_branch hstmt rounds) fun _ => blames_pure _

theorem blames_tryStatement (hstmt : Blames [] stmt) (rounds : Nat) :
    Blames seen (tryStatement rounds stmt) := by
  refine blames_bind (blames_expectKeyword _) fun _ => ?_
  refine blames_bind (blames_block hstmt rounds) fun _ => ?_
  refine blames_bind (blames_expectKeyword _) fun _ => ?_
  refine blames_bind (blames_expect _ (by simp)) fun _ => ?_
  refine blames_bind (blames_identifier (by simp)) fun _ => ?_
  refine blames_bind (blames_expect _ (by simp)) fun _ => ?_
  exact blames_bind (blames_block hstmt rounds) fun _ => blames_pure _

theorem blames_throwStatement (hexpr : Blames [] expr) : Blames seen (throwStatement expr) :=
  blames_bind (blames_expectKeyword _) fun _ =>
    blames_bind (hexpr.weaken _) fun _ => blames_pure _

theorem blames_returnStatement (hexpr : Blames [] expr) : Blames seen (returnStatement expr) := by
  refine blames_bind (blames_expectKeyword _) fun _ => blames_peek_bind fun token => ?_
  split
  · exact blames_pure _
  · exact blames_bind (hexpr.weaken _) fun _ => blames_pure _

theorem blames_startsMap : Blames seen startsMap :=
  blames_peekNth_bind _ fun _ => blames_peekNth_bind _ fun _ => blames_pure _

theorem blames_statementForm (hexpr : Blames [] expr) (hstmt : Blames [] stmt) (rounds : Nat) :
    Blames seen (statementForm rounds expr stmt) := by
  refine blames_peek_bind fun token => ?_
  split
  · exact blames_letStatement hexpr
  · refine blames_peekNth_bind _ fun _ => ?_
    split
    · exact blames_functionStatement hstmt rounds
    · exact blames_expressionStatement hexpr
  · exact blames_ifStatement hexpr hstmt rounds
  · exact blames_whileStatement hexpr hstmt rounds
  · exact blames_forStatement hexpr hstmt rounds
  · exact blames_tryStatement hstmt rounds
  · exact blames_throwStatement hexpr
  · exact blames_returnStatement hexpr
  · exact blames_bind blames_advance fun _ => blames_pure _
  · exact blames_bind blames_advance fun _ => blames_pure _
  · refine blames_bind blames_startsMap fun _ => ?_
    split
    · exact blames_expressionStatement hexpr
    · exact blames_bind (blames_block hstmt rounds) fun _ => blames_pure _
  · exact blames_expressionStatement hexpr

theorem blames_placedStatement (hexpr : Blames [] expr) (hstmt : Blames [] stmt) (rounds : Nat) :
    Blames [] (placedStatement rounds expr stmt) := by
  refine blames_peek_bind fun first => ?_
  refine blames_bind (blames_statementForm hexpr hstmt rounds) fun _ => ?_
  refine blames_bind (blames_spanFrom _) fun _ => ?_
  exact blames_bind (blames_accept _) fun _ => blames_pure _

end Statements

/-- **Every parser of a tree** moves forward, and complains of tokens that it has met. -/
theorem blames_expression_statement (depth : Nat) :
    Blames [] (expression depth) ∧ Blames [] (statement depth) := by
  induction depth with
  | zero =>
    constructor
    · exact blames_fail (by simp)
    · exact blames_fail (by simp)
  | succ depth ih =>
    obtain ⟨hexpr, hstmt⟩ := ih
    exact ⟨blames_assignment depth hexpr (blames_block hstmt depth),
      blames_placedStatement hexpr hstmt depth⟩

end Parser

/-- **The next statement of a stream.**  If there is none, the parser complains of a token that lies
between where it started and where it stopped, and calls a numeral malformed only if it is. -/
theorem TokenStream.founded_of_parseNext {s s' : TokenStream} (hs : s.Closed) {e : ParseError}
    (h : s.parseNext = (.error e, s')) :
    ∃ ts, s.Passes ts s' ∧ e.token ∈ ts ++ [s'.here] ∧ e.Founded := by
  have hcharged := (Parser.blames_expression_statement s.depthBound).2 s hs
  unfold parseNext at h
  generalize Parser.statement s.depthBound s = r at hcharged h
  cases hcharged with
  | ok _ => cases h
  | error hpass htoken hfounded =>
    cases h
    exact ⟨_, hpass, htoken, hfounded⟩

end Script
