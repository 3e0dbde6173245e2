import Script.Proofs.Grammar.Steps
import Script.Proofs.Printing.Lexing

/-!
# The grammar of printed trees

The lexemes of a printed tree derive that tree, up to spans.  Whether an operand needs parentheses
is a matter of its place: a place requires a binding strength, and an expression that binds at least
as tightly derives there, provided that the token after it ends it there.

## Main definitions

* `phraseAt`: the phrase that a place requires.
* `EndsAt`: the tokens that end an expression in a place.
* `ReadsAt`: lexemes that denote an expression in a place.
-/

namespace Script.Grammar

variable {α : Type}

/-- The phrase of an expression in a place that requires the binding strength `least`. -/
def phraseAt (least : Nat) (e : Expr Span) : Phrase :=
  match least with
  | 0 => .expression e
  | level + 1 => if level ≤ unaryLevel then .operation level e else .applied e

/-- The token ends every expression in a place that requires the binding strength `least`. -/
def EndsAt (least : Nat) (next : Token) : Prop :=
  match least with
  | 0 => next.lexeme ≠ .symbol .assign ∧ NoApplication next ∧ ∀ k, NoOperator k next
  | level + 1 => level ≤ unaryLevel → NoApplication next ∧ ∀ k, level < k → NoOperator k next

theorem EndsAt.succ {least : Nat} {next : Token} (h : EndsAt least next) :
    EndsAt (least + 1) next := by
  cases least with
  | zero => exact fun _ => ⟨h.2.1, fun k _ => h.2.2 k⟩
  | succ level =>
    intro hlevel
    obtain ⟨happ, hop⟩ := h (by omega)
    exact ⟨happ, fun k hk => hop k (by omega)⟩

theorem EndsAt.mono {least b : Nat} {next : Token} (h : EndsAt least next) (hb : least ≤ b) :
    EndsAt b next := by
  induction hb with
  | refl => exact h
  | step _ ih => exact ih.succ

theorem phraseAt_op (op : BinaryOp) (e : Expr Span) :
    phraseAt (op.level + 1) e = .operation op.level e :=
  if_pos (Nat.le_of_lt op.level_lt_unaryLevel)

theorem phraseAt_op_succ (op : BinaryOp) (e : Expr Span) :
    phraseAt (op.level + 2) e = .operation (op.level + 1) e :=
  if_pos op.level_lt_unaryLevel

/-- An expression that derives in a tighter place derives in a looser one. -/
theorem derives_phraseAt {least b : Nat} {e : Expr Span} {ts : List Token} {next : Token}
    (hb : least ≤ b) (hend : EndsAt least next) (h : Derives (phraseAt b e) ts next) :
    Derives (phraseAt least e) ts next := by
  induction hb with
  | refl => exact h
  | @step b hb ih =>
    refine ih ?_
    have hend := hend.mono hb
    cases b with
    | zero => exact .noAssign h (hend.2.2 0) hend.1
    | succ level =>
      simp only [phraseAt] at h ⊢
      -- below the unary level, at it, and above it the next looser phrase is another one
      rcases Nat.lt_trichotomy level unaryLevel with hlt | rfl | hgt
      · obtain ⟨-, hop⟩ := hend (Nat.le_of_lt hlt)
        rw [if_pos (Nat.succ_le_of_lt hlt)] at h
        rw [if_pos (Nat.le_of_lt hlt)]
        exact .tighter hlt h (hop _ (Nat.lt_succ_self level))
      · rw [if_neg (by omega)] at h
        rw [if_pos (Nat.le_refl _)]
        exact .noUnary h (hend (Nat.le_refl _)).1
      · rw [if_neg (by omega)] at h ⊢
        exact h

/-! ### Tokens that end an expression -/

/-- The symbols that can stand after an expression without being part of a larger one. -/
def isCloser : Symbol → Bool
  | .rightParen | .rightBracket | .rightBrace | .comma | .semicolon => true
  | _ => false

theorem endsAt_of_isCloser {t : Token} {mark : Symbol} (ht : t.lexeme = .symbol mark)
    (hmark : isCloser mark = true) (least : Nat) : EndsAt least t := by
  have hother : ∀ other, isCloser other = false → t.lexeme ≠ .symbol other := by
    intro other hclose heq
    rw [ht, Lexeme.symbol.injEq] at heq
    rw [heq, hclose] at hmark
    exact absurd hmark (by simp)
  have hzero : EndsAt 0 t := by
    refine ⟨hother _ rfl, ⟨hother _ rfl, hother _ rfl, hother _ rfl⟩, ?_⟩
    intro k op _
    exact hother _ (by cases op <;> rfl)
  exact hzero.mono (Nat.zero_le least)

/-- No two operators share a symbol. -/
theorem mark_injective {op other : BinaryOp} (h : other.mark = op.mark) : other = op := by
  cases op <;> cases other <;> simp [BinaryOp.mark] at h ⊢

/-- An operator ends the operand on its left. -/
theorem endsAt_of_mark {t : Token} {op : BinaryOp} (ht : t.lexeme = .symbol op.mark) :
    EndsAt (op.level + 1) t := by
  intro _
  refine ⟨?_, ?_⟩
  · cases op <;> simp [NoApplication, ht, BinaryOp.mark]
  · intro k hk other hother heq
    rw [ht, Lexeme.symbol.injEq] at heq
    have hsame : other = op := mark_injective heq.symm
    rw [hsame] at hother
    omega

/-- The sign of an assignment ends the place on its left. -/
theorem endsAt_of_assign {t : Token} (ht : t.lexeme = .symbol .assign) : EndsAt 1 t := by
  intro _
  refine ⟨by simp [NoApplication, ht], ?_⟩
  intro k _ op _
  cases op <;> simp [ht, BinaryOp.mark]

/-! ### Lexemes that denote a tree -/

/-- The lexemes denote the expression in a place that requires the binding strength `least`. -/
def ReadsAt (least : Nat) (ls : List Lexeme) (e : Expr α) : Prop :=
  ∀ ⦃ts : List Token⦄ ⦃next : Token⦄, ts.map Token.lexeme = ls → EndsAt least next →
    ∃ e' : Expr Span, Derives (phraseAt least e') ts next ∧ e'.erase = e.erase

/-- The lexemes denote the expressions in front of the symbol `close`. -/
def ReadsItems (close : Symbol) (ls : List Lexeme) (es : List (Expr α)) : Prop :=
  ∀ ⦃ts : List Token⦄ ⦃next : Token⦄, ts.map Token.lexeme = ls → next.lexeme = .symbol close →
    ∃ es' : List (Expr Span), Derives (.items close es') ts next ∧
      Expr.mapAnnList (fun _ => ()) es' = Expr.mapAnnList (fun _ => ()) es

/-- The lexemes denote the entries of a map. -/
def ReadsEntries (ls : List Lexeme) (es : List (String × Expr α)) : Prop :=
  ∀ ⦃ts : List Token⦄ ⦃next : Token⦄, ts.map Token.lexeme = ls →
    next.lexeme = .symbol .rightBrace →
    ∃ es' : List (String × Expr Span), Derives (.entries es') ts next ∧
      Expr.mapAnnEntries (fun _ => ()) es' = Expr.mapAnnEntries (fun _ => ()) es

/-- The lexemes denote an expression that is the given place. -/
def ReadsTarget (ls : List Lexeme) (target : Target α) : Prop :=
  ∀ ⦃ts : List Token⦄ ⦃next : Token⦄, ts.map Token.lexeme = ls →
    ∃ (place : Expr Span) (target' : Target Span), Derives (.applied place) ts next ∧
      place.toTarget? = some target' ∧
        target'.mapAnn (fun _ => ()) = target.mapAnn (fun _ => ())

/-- The lexemes denote the statement, in front of its semicolon. -/
def ReadsForm (ls : List Lexeme) (s : Stmt α) : Prop :=
  ∀ ⦃ts : List Token⦄ ⦃mark : Token⦄, ts.map Token.lexeme = ls →
    mark.lexeme = .symbol .semicolon →
    ∃ build : Span → Stmt Span, Derives (.form build) ts mark ∧
      ∀ span, (build span).erase = s.erase

/-- The lexemes denote the statements. -/
def ReadsBody (ls : List Lexeme) (body : List (Stmt α)) : Prop :=
  ∀ ⦃ts : List Token⦄ ⦃next : Token⦄, ts.map Token.lexeme = ls → EndsBlock next →
    ∃ body' : List (Stmt Span), Derives (.statements body') ts next ∧
      Stmt.mapAnnList (fun _ => ()) body' = Stmt.mapAnnList (fun _ => ()) body

/-- Tokens with a first and a last lexeme around given ones. -/
theorem exists_between {ts : List Token} {l r : Lexeme} {ls : List Lexeme}
    (h : ts.map Token.lexeme = l :: (ls ++ [r])) :
    ∃ left us right, ts = left :: (us ++ [right]) ∧ left.lexeme = l ∧
      us.map Token.lexeme = ls ∧ right.lexeme = r := by
  obtain ⟨left, vs, rfl, hleft, hvs⟩ := List.map_eq_cons_iff.mp h
  obtain ⟨us, ws, rfl, hus, hws⟩ := List.map_eq_append_iff.mp hvs
  obtain ⟨right, rfl, hright⟩ := List.map_eq_singleton_iff.mp hws
  exact ⟨left, us, right, rfl, hleft, hus, hright⟩

/-! ### Expressions -/

section Expressions

variable {e left right : Expr α} {ls ll lr : List Lexeme}

/-- An expression in a looser place than its own. -/
theorem ReadsAt.mono {least b : Nat} (h : ReadsAt b ls e) (hb : least ≤ b) :
    ReadsAt least ls e := by
  intro ts next hts hend
  obtain ⟨e', hderives, herase⟩ := h hts (hend.mono hb)
  exact ⟨e', derives_phraseAt hb hend hderives, herase⟩

/-- **Parentheses where they are needed.**  With them, an expression stands in any place; where they
are left out, the expression binds tightly enough. -/
theorem ReadsAt.enclose {least b : Nat} (h : ReadsAt b ls e) (hleast : least ≤ appliedBinding) :
    ReadsAt least (enclose (b < least) ls) e := by
  unfold Script.enclose
  split
  · intro ts next hts hend
    obtain ⟨left, us, right, rfl, hleft, hus, hright⟩ := exists_between hts
    obtain ⟨e', hderives, herase⟩ := h.mono (Nat.zero_le b) hus (endsAt_of_isCloser hright rfl 0)
    have hparens : Derives (.primary (e'.setAnn (left.span.join right.span)))
        (left :: (us ++ [right])) next := .parens hleft hderives hright
    refine ⟨_, derives_phraseAt hleast hend (.notApplied hparens), ?_⟩
    rw [Expr.erase_setAnn, herase]
  · next hb =>
    exact h.mono (by simpa using hb)

/-- An expression of one token. -/
theorem readsAt_single {l : Lexeme}
    (h : ∀ t next, t.lexeme = l → ∃ e' : Expr Span, Derives (.primary e') [t] next ∧
      e'.erase = e.erase) : ReadsAt appliedBinding [l] e := by
  intro ts next hts _
  obtain ⟨t, rfl, ht⟩ := List.map_eq_singleton_iff.mp hts
  obtain ⟨e', hderives, herase⟩ := h t next ht
  exact ⟨e', .notApplied hderives, herase⟩

theorem readsAt_binary {a : α} {op : BinaryOp} (hl : ReadsAt left.binding ll left)
    (hr : ReadsAt right.binding lr right) :
    ReadsAt (op.level + 1) (enclose (left.binding < op.level + 1) ll ++
      .symbol op.mark :: enclose (right.binding < op.level + 2) lr) (.binary a op left right) := by
  intro ts next hts hend
  have hlevel := op.level_lt_unaryLevel
  obtain ⟨us, vs, rfl, hus, hvs⟩ := List.map_eq_append_iff.mp hts
  obtain ⟨mark, ws, rfl, hmark, hws⟩ := List.map_eq_cons_iff.mp hvs
  obtain ⟨left', hleft, heraseLeft⟩ :=
    hl.enclose (by rw [appliedBinding]; omega) hus (endsAt_of_mark hmark)
  obtain ⟨right', hright, heraseRight⟩ :=
    hr.enclose (by rw [appliedBinding]; omega) hws hend.succ
  -- the left operand stands at the level of the operator, the right one above it
  rw [phraseAt_op] at hleft
  rw [phraseAt_op_succ] at hright
  have hstop := (hend (Nat.le_of_lt hlevel)).2 _ (Nat.lt_succ_self op.level)
  refine ⟨.binary (left'.ann.join right'.ann) op left' right', ?_, ?_⟩
  · rw [phraseAt_op]
    exact .binary hleft hmark hright hstop
  · simp only [Expr.erase, Expr.mapAnn] at heraseLeft heraseRight ⊢
    rw [heraseLeft, heraseRight]

theorem readsAt_unary {a : α} {op : UnaryOp} (h : ReadsAt e.binding ls e) :
    ReadsAt (unaryLevel + 1) (.symbol op.mark :: enclose (e.binding < unaryLevel + 1) ls)
      (.unary a op e) := by
  intro ts next hts hend
  obtain ⟨mark, us, rfl, hmark, hus⟩ := List.map_eq_cons_iff.mp hts
  obtain ⟨e', hderives, herase⟩ := h.enclose (by decide) hus hend
  refine ⟨.unary (mark.span.join e'.ann) op e', .unary hmark hderives, ?_⟩
  simp only [Expr.erase, Expr.mapAnn] at herase ⊢
  rw [herase]

theorem readsAt_assign {a : α} {target : Target α} (htarget : ReadsTarget ll target)
    (hvalue : ReadsAt e.binding ls e) :
    ReadsAt 0 (ll ++ .symbol .assign :: ls) (.assign a target e) := by
  intro ts next hts hend
  obtain ⟨us, vs, rfl, hus, hvs⟩ := List.map_eq_append_iff.mp hts
  obtain ⟨mark, ws, rfl, hmark, hws⟩ := List.map_eq_cons_iff.mp hvs
  obtain ⟨place, target', happlied, hplace, heraseTarget⟩ := htarget hus
  have hoperation : Derives (.operation 0 place) us mark :=
    derives_phraseAt (b := appliedBinding) (by decide) (endsAt_of_assign hmark) happlied
  obtain ⟨value', hderives, herase⟩ := hvalue.mono (Nat.zero_le _) hws hend
  refine ⟨.assign (place.ann.join value'.ann) target' value',
    .assign hoperation hplace hmark hderives, ?_⟩
  simp only [Expr.erase, Expr.mapAnn] at herase ⊢
  rw [heraseTarget, herase]

/-- Anything may be applied to an expression that is closed in itself. -/
theorem ReadsAt.applied (h : ReadsAt e.binding ls e) {ts : List Token}
    (hts : ts.map Token.lexeme = Script.enclose (e.binding < appliedBinding) ls) (next : Token) :
    ∃ e' : Expr Span, Derives (.applied e') ts next ∧ e'.erase = e.erase :=
  h.enclose (Nat.le_refl _) hts fun habsurd => absurd habsurd (by decide)

theorem readsAt_call {a : α} {args : List (Expr α)} (he : ReadsAt e.binding ll e)
    (hargs : ReadsItems .rightParen ls args) :
    ReadsAt appliedBinding (enclose (e.binding < appliedBinding) ll ++
      .symbol .leftParen :: (ls ++ [.symbol .rightParen])) (.call a e args) := by
  intro ts next hts _
  obtain ⟨us, vs, rfl, hus, hvs⟩ := List.map_eq_append_iff.mp hts
  obtain ⟨left, ws, right, rfl, hleft, hws, hright⟩ := exists_between hvs
  obtain ⟨e', hderives, herase⟩ := he.applied hus left
  obtain ⟨args', hargs', heraseArgs⟩ := hargs hws hright
  refine ⟨.call (e'.ann.join right.span) e' args', .call hderives hleft hargs' hright, ?_⟩
  simp only [Expr.erase, Expr.mapAnn] at herase ⊢
  rw [herase, heraseArgs]

/-- An indexed expression, as a value and as a place. -/
theorem reads_index {key : Expr α} (he : ReadsAt e.binding ll e)
    (hkey : ReadsAt key.binding ls key) {ts : List Token} (next : Token)
    (hts : ts.map Token.lexeme = enclose (e.binding < appliedBinding) ll ++
      .symbol .leftBracket :: (ls ++ [.symbol .rightBracket])) :
    ∃ (span : Span) (e' key' : Expr Span), Derives (.applied (.index span e' key')) ts next ∧
      e'.erase = e.erase ∧ key'.erase = key.erase := by
  obtain ⟨us, vs, rfl, hus, hvs⟩ := List.map_eq_append_iff.mp hts
  obtain ⟨left, ws, right, rfl, hleft, hws, hright⟩ := exists_between hvs
  obtain ⟨e', hderives, herase⟩ := he.applied hus left
  obtain ⟨key', hkey', heraseKey⟩ :=
    hkey.mono (Nat.zero_le _) hws (endsAt_of_isCloser hright rfl 0)
  exact ⟨e'.ann.join right.span, e', key', .index hderives hleft hkey' hright, herase, heraseKey⟩

/-- A member of an expression, as a value and as a place. -/
theorem reads_field {name : String} (he : ReadsAt e.binding ll e) {ts : List Token} (next : Token)
    (hts : ts.map Token.lexeme = enclose (e.binding < appliedBinding) ll ++
      [.symbol .dot, .identifier name]) :
    ∃ (span : Span) (e' : Expr Span), Derives (.applied (.field span e' name)) ts next ∧
      e'.erase = e.erase := by
  obtain ⟨us, vs, rfl, hus, hvs⟩ := List.map_eq_append_iff.mp hts
  obtain ⟨dot, ws, rfl, hdot, hws⟩ := List.map_eq_cons_iff.mp hvs
  obtain ⟨member, rfl, hmember⟩ := List.map_eq_singleton_iff.mp hws
  obtain ⟨e', hderives, herase⟩ := he.applied hus dot
  exact ⟨e'.ann.join member.span, e', .field hderives hdot hmember, herase⟩

theorem readsAt_array {a : α} {es : List (Expr α)} (h : ReadsItems .rightBracket ls es) :
    ReadsAt appliedBinding (.symbol .leftBracket :: (ls ++ [.symbol .rightBracket]))
      (.array a es) := by
  intro ts next hts _
  obtain ⟨left, us, right, rfl, hleft, hus, hright⟩ := exists_between hts
  obtain ⟨es', hderives, herase⟩ := h hus hright
  refine ⟨.array (left.span.join right.span) es',
    .notApplied (.array hleft hderives hright), ?_⟩
  simp only [Expr.erase, Expr.mapAnn, herase]

theorem readsAt_map {a : α} {es : List (String × Expr α)} (h : ReadsEntries ls es) :
    ReadsAt appliedBinding (braced ls) (.map a es) := by
  intro ts next hts _
  obtain ⟨left, us, right, rfl, hleft, hus, hright⟩ := exists_between hts
  obtain ⟨es', hderives, herase⟩ := h hus hright
  refine ⟨.map (left.span.join right.span) es', .notApplied (.map hleft hderives hright), ?_⟩
  simp only [Expr.erase, Expr.mapAnn, herase]

/-! ### Lists -/

theorem readsItems_one {close : Symbol} (hclose : isCloser close = true) (hcomma : close ≠ .comma)
    (h : ReadsAt e.binding ls e) : ReadsItems close ls [e] := by
  intro ts next hts hnext
  obtain ⟨e', hderives, herase⟩ := h.mono (Nat.zero_le _) hts (endsAt_of_isCloser hnext hclose 0)
  refine ⟨[e'], .oneItem hderives (by simpa [hnext] using hcomma), ?_⟩
  simp only [Expr.erase] at herase
  simp only [Expr.mapAnnList, herase]

theorem readsItems_cons {close : Symbol} {es : List (Expr α)} (h : ReadsAt e.binding ll e)
    (hmore : ReadsItems close ls es) :
    ReadsItems close (ll ++ .symbol .comma :: ls) (e :: es) := by
  intro ts next hts hnext
  obtain ⟨us, vs, rfl, hus, hvs⟩ := List.map_eq_append_iff.mp hts
  obtain ⟨comma, ws, rfl, hcomma, hws⟩ := List.map_eq_cons_iff.mp hvs
  obtain ⟨e', hderives, herase⟩ := h.mono (Nat.zero_le _) hus (endsAt_of_isCloser hcomma rfl 0)
  obtain ⟨es', hderives', herase'⟩ := hmore hws hnext
  refine ⟨e' :: es', .moreItems hderives hcomma hderives', ?_⟩
  simp only [Expr.erase] at herase
  simp only [Expr.mapAnnList, herase, herase']

theorem key?_of_quoted {t : Token} {key : String} (ht : t.lexeme = .quoted key) :
    t.key? = some key := by
  simp [Token.key?, ht]

theorem key?_of_identifier {t : Token} {key : String} (ht : t.lexeme = .identifier key) :
    t.key? = some key := by
  simp [Token.key?, ht]

theorem readsEntries_one {key : String} {l : Lexeme}
    (hl : ∀ t : Token, t.lexeme = l → t.key? = some key) (h : ReadsAt e.binding ls e) :
    ReadsEntries (l :: .symbol .colon :: ls) [(key, e)] := by
  intro ts next hts hnext
  obtain ⟨t, us, rfl, ht, hus⟩ := List.map_eq_cons_iff.mp hts
  obtain ⟨colon, vs, rfl, hcolon, hvs⟩ := List.map_eq_cons_iff.mp hus
  obtain ⟨e', hderives, herase⟩ := h.mono (Nat.zero_le _) hvs (endsAt_of_isCloser hnext rfl 0)
  refine ⟨[(key, e')], .oneEntry (hl t ht) hcolon hderives (by simp [hnext]), ?_⟩
  simp only [Expr.erase] at herase
  simp only [Expr.mapAnnEntries, herase]

theorem readsEntries_cons {key : String} {l : Lexeme} {es : List (String × Expr α)}
    (hl : ∀ t : Token, t.lexeme = l → t.key? = some key) (h : ReadsAt e.binding ll e)
    (hmore : ReadsEntries ls es) :
    ReadsEntries (l :: .symbol .colon :: (ll ++ .symbol .comma :: ls)) ((key, e) :: es) := by
  intro ts next hts hnext
  obtain ⟨t, us, rfl, ht, hus⟩ := List.map_eq_cons_iff.mp hts
  obtain ⟨colon, vs, rfl, hcolon, hvs⟩ := List.map_eq_cons_iff.mp hus
  obtain ⟨ws, xs, rfl, hws, hxs⟩ := List.map_eq_append_iff.mp hvs
  obtain ⟨comma, ys, rfl, hcomma, hys⟩ := List.map_eq_cons_iff.mp hxs
  obtain ⟨e', hderives, herase⟩ := h.mono (Nat.zero_le _) hws (endsAt_of_isCloser hcomma rfl 0)
  obtain ⟨es', hderives', herase'⟩ := hmore hys hnext
  refine ⟨(key, e') :: es', .moreEntries (hl t ht) hcolon hderives hcomma hderives', ?_⟩
  simp only [Expr.erase] at herase
  simp only [Expr.mapAnnEntries, herase, herase']

/-- Parameter names denote themselves. -/
theorem derives_params {names : List String} {ts : List Token} {next : Token}
    (hts : ts.map Token.lexeme = nameLexemes names) (hnext : next.lexeme = .symbol .rightParen) :
    Derives (.params names) ts next := by
  induction names generalizing ts with
  | nil =>
    rw [nameLexemes, List.map_eq_nil_iff] at hts
    subst hts
    exact .noParams hnext
  | cons name names ih =>
    cases names with
    | nil =>
      obtain ⟨t, rfl, ht⟩ := List.map_eq_singleton_iff.mp hts
      exact .oneParam ht (by simp [hnext])
    | cons other names =>
      obtain ⟨t, us, rfl, ht, hus⟩ := List.map_eq_cons_iff.mp hts
      obtain ⟨comma, vs, rfl, hcomma, hvs⟩ := List.map_eq_cons_iff.mp hus
      exact .moreParams ht hcomma (ih hvs)

end Expressions

/-! ### Bodies -/

section Statements

variable {e : Expr α} {body : List (Stmt α)} {ls lb : List Lexeme} {ts : List Token} {name : String}

theorem ReadsBody.block (h : ReadsBody lb body) (next : Token)
    (hts : ts.map Token.lexeme = braced lb) :
    ∃ body' : List (Stmt Span), Derives (.block body') ts next ∧
      Stmt.mapAnnList (fun _ => ()) body' = Stmt.mapAnnList (fun _ => ()) body := by
  obtain ⟨left, us, right, rfl, hleft, hus, hright⟩ := exists_between hts
  obtain ⟨body', hderives, herase⟩ := h hus (.inl hright)
  exact ⟨body', .block hleft hderives hright, herase⟩

theorem ReadsBody.code (h : ReadsBody lb body) {params : List String} (next : Token)
    (hts : ts.map Token.lexeme = codeLexemes params lb) :
    ∃ body' : List (Stmt Span), Derives (.code params body') ts next ∧
      Stmt.mapAnnList (fun _ => ()) body' = Stmt.mapAnnList (fun _ => ()) body := by
  obtain ⟨left, us, rfl, hleft, hus⟩ := List.map_eq_cons_iff.mp hts
  obtain ⟨vs, ws, rfl, hvs, hws⟩ := List.map_eq_append_iff.mp hus
  obtain ⟨right, xs, rfl, hright, hxs⟩ := List.map_eq_cons_iff.mp hws
  obtain ⟨body', hderives, herase⟩ := h.block next hxs
  exact ⟨body', .code hleft (derives_params hvs hright) hright hderives, herase⟩

theorem readsAt_lambda {a : α} {label : Option String} {params : List String}
    (h : ReadsBody lb body) :
    ReadsAt appliedBinding
      (.keyword .function :: (label.toList.map .identifier ++ codeLexemes params lb))
      (.lambda a label params body) := by
  intro ts next hts _
  obtain ⟨word, us, rfl, hword, hus⟩ := List.map_eq_cons_iff.mp hts
  cases label with
  | none =>
    obtain ⟨body', hderives, herase⟩ := h.code next hus
    refine ⟨.lambda (cover (word :: us)) none params body',
      .notApplied (.lambda hword hderives), ?_⟩
    simp only [Expr.erase, Expr.mapAnn, herase]
  | some label =>
    obtain ⟨t, vs, rfl, ht, hvs⟩ := List.map_eq_cons_iff.mp hus
    obtain ⟨body', hderives, herase⟩ := h.code next hvs
    refine ⟨.lambda (cover (word :: t :: vs)) (some label) params body',
      .notApplied (.namedLambda hword ht hderives), ?_⟩
    simp only [Expr.erase, Expr.mapAnn, herase]

/-- A statement with its semicolon, in front of any token. -/
theorem ReadsForm.statement {s : Stmt α} (h : ReadsForm ls s) (next : Token)
    (hts : ts.map Token.lexeme = ls ++ [.symbol .semicolon]) :
    ∃ s' : Stmt Span, Derives (.statement s') ts next ∧ s'.erase = s.erase := by
  obtain ⟨us, vs, rfl, hus, hvs⟩ := List.map_eq_append_iff.mp hts
  obtain ⟨mark, rfl, hmark⟩ := List.map_eq_singleton_iff.mp hvs
  obtain ⟨build, hderives, herase⟩ := h hus hmark
  exact ⟨build (cover us), .ended hderives hmark, herase _⟩

theorem ReadsBody.nil : ReadsBody [] ([] : List (Stmt α)) := by
  intro ts next hts hend
  rw [List.map_eq_nil_iff] at hts
  subst hts
  exact ⟨[], .noStatements hend, rfl⟩

theorem ReadsBody.cons {s : Stmt α} (h : ReadsForm ls s) (hbody : ReadsBody lb body) :
    ReadsBody ((ls ++ [.symbol .semicolon]) ++ lb) (s :: body) := by
  intro ts next hts hend
  obtain ⟨us, vs, rfl, hus, hvs⟩ := List.map_eq_append_iff.mp hts
  obtain ⟨body', hderives, herase⟩ := hbody hvs hend
  obtain ⟨s', hstatement, herase'⟩ := h.statement (vs.headD next) hus
  refine ⟨s' :: body', .moreStatements hstatement hderives, ?_⟩
  simp only [Stmt.erase] at herase'
  simp only [Stmt.mapAnnList, herase, herase']

/-! ### Forms of statements -/

theorem readsForm_letVar {a : α} :
    ReadsForm [.keyword .letWord, .identifier name] (.letVar a name none) := by
  intro ts mark hts hmark
  obtain ⟨word, us, rfl, hword, hus⟩ := List.map_eq_cons_iff.mp hts
  obtain ⟨label, rfl, hlabel⟩ := List.map_eq_singleton_iff.mp hus
  exact ⟨_, .letVar hword hlabel (by simp [hmark]), fun _ => rfl⟩

/-- The value at the end of a statement. -/
theorem ReadsAt.before_semicolon (h : ReadsAt e.binding ls e) {mark : Token}
    (hts : ts.map Token.lexeme = ls) (hmark : mark.lexeme = .symbol .semicolon) :
    ∃ e' : Expr Span, Derives (.expression e') ts mark ∧
      e'.mapAnn (fun _ => ()) = e.mapAnn (fun _ => ()) :=
  h.mono (Nat.zero_le _) hts (endsAt_of_isCloser hmark rfl 0)

theorem readsForm_letInit {a : α} (h : ReadsAt e.binding ls e) :
    ReadsForm (.keyword .letWord :: .identifier name :: .symbol .assign :: ls)
      (.letVar a name (some e)) := by
  intro ts mark hts hmark
  obtain ⟨word, us, rfl, hword, hus⟩ := List.map_eq_cons_iff.mp hts
  obtain ⟨label, vs, rfl, hlabel, hvs⟩ := List.map_eq_cons_iff.mp hus
  obtain ⟨sign, ws, rfl, hsign, hws⟩ := List.map_eq_cons_iff.mp hvs
  obtain ⟨e', hderives, herase⟩ := h.before_semicolon hws hmark
  refine ⟨_, .letInit hword hlabel hsign hderives, fun span => ?_⟩
  simp only [Stmt.erase, Stmt.mapAnn, herase]

theorem readsForm_function {a : α} {params : List String} (h : ReadsBody lb body) :
    ReadsForm (.keyword .function :: .identifier name :: codeLexemes params lb)
      (.function a name params body) := by
  intro ts mark hts _
  obtain ⟨word, us, rfl, hword, hus⟩ := List.map_eq_cons_iff.mp hts
  obtain ⟨label, vs, rfl, hlabel, hvs⟩ := List.map_eq_cons_iff.mp hus
  obtain ⟨body', hderives, herase⟩ := h.code mark hvs
  refine ⟨_, .function hword hlabel hderives, fun span => ?_⟩
  simp only [Stmt.erase, Stmt.mapAnn, herase]

/-- Tokens that do not begin like a map or a function begin neither a block nor a declaration. -/
theorem plain_of_not_opensLiteral (h : opensLiteral (ts.map Token.lexeme) = false) :
    opensBlock ts = false ∧ opensDeclaration ts = false := by
  cases ts with
  | nil => exact ⟨rfl, rfl⟩
  | cons t us =>
    have hbrace : t.isSymbol .leftBrace = false := by
      rw [Bool.eq_false_iff, Ne, Token.isSymbol_iff]
      intro ht
      simp [opensLiteral, ht] at h
    have hword : t.isKeyword .function = false := by
      rw [Bool.eq_false_iff, Ne, Token.isKeyword_iff]
      intro ht
      simp [opensLiteral, ht] at h
    match us with
    | [] => exact ⟨rfl, rfl⟩
    | [_] | _ :: _ :: _ => simp [opensBlock, opensDeclaration, hbrace, hword]

/-- An expression as a statement: once it is in parentheses where needed, its first token begins
neither a block nor a declaration. -/
theorem readsForm_expr {a : α} (h : ReadsAt e.binding ls e) :
    ReadsForm (enclose (opensLiteral ls) ls) (.expr a e) := by
  intro ts mark hts hmark
  have hplain : opensLiteral (enclose (opensLiteral ls) ls) = false := by
    unfold enclose
    split
    · rfl
    · next hopen => simpa using hopen
  have hreads : ReadsAt 0 (enclose (opensLiteral ls) ls) e := by
    unfold enclose
    split
    · have henclosed : ReadsAt appliedBinding (enclose (0 < appliedBinding) ls) e :=
        (h.mono (Nat.zero_le _)).enclose (Nat.le_refl _)
      exact henclosed.mono (Nat.zero_le _)
    · exact h.mono (Nat.zero_le _)
  obtain ⟨e', hderives, herase⟩ := hreads hts (endsAt_of_isCloser hmark rfl 0)
  rw [← hts] at hplain
  obtain ⟨hblock, hdeclaration⟩ := plain_of_not_opensLiteral hplain
  refine ⟨_, .exprForm hderives hblock hdeclaration, fun span => ?_⟩
  simp only [Expr.erase] at herase
  simp only [Stmt.erase, Stmt.mapAnn, herase]

theorem readsForm_block {a : α} (h : ReadsBody lb body) :
    ReadsForm (braced lb) (.block a body) := by
  intro ts mark hts _
  obtain ⟨body', hderives, herase⟩ := h.block mark hts
  refine ⟨_, .blockForm hderives, fun span => ?_⟩
  simp only [Stmt.erase, Stmt.mapAnn, herase]

/-- The word and the condition that a choice and a loop begin with, and what comes after. -/
theorem exists_guarded {word : Keyword} {lrest : List Lexeme} (h : ReadsAt e.binding ls e)
    (hts : ts.map Token.lexeme =
      .keyword word :: .symbol .leftParen :: (ls ++ .symbol .rightParen :: lrest)) :
    ∃ t left us right vs e', ts = t :: left :: (us ++ right :: vs) ∧ t.lexeme = .keyword word ∧
      left.lexeme = .symbol .leftParen ∧ Derives (.expression e') us right ∧
      right.lexeme = .symbol .rightParen ∧ vs.map Token.lexeme = lrest ∧
      e'.mapAnn (fun _ => ()) = e.mapAnn (fun _ => ()) := by
  obtain ⟨t, us, rfl, ht, hus⟩ := List.map_eq_cons_iff.mp hts
  obtain ⟨left, vs, rfl, hleft, hvs⟩ := List.map_eq_cons_iff.mp hus
  obtain ⟨ws, xs, rfl, hws, hxs⟩ := List.map_eq_append_iff.mp hvs
  obtain ⟨right, ys, rfl, hright, hys⟩ := List.map_eq_cons_iff.mp hxs
  obtain ⟨e', hderives, herase⟩ := h.mono (Nat.zero_le _) hws (endsAt_of_isCloser hright rfl 0)
  exact ⟨t, left, ws, right, ys, e', rfl, ht, hleft, hderives, hright, hys, herase⟩

theorem readsForm_ifThen {a : α} (h : ReadsAt e.binding ls e) (hyes : ReadsBody lb body) :
    ReadsForm (.keyword .ifWord :: .symbol .leftParen ::
      (ls ++ .symbol .rightParen :: braced lb)) (.ifElse a e body none) := by
  intro ts mark hts hmark
  obtain ⟨t, left, us, right, vs, e', rfl, ht, hleft, hderives, hright, hvs, herase⟩ :=
    exists_guarded h hts
  obtain ⟨body', hbody, heraseBody⟩ := hyes.block mark hvs
  refine ⟨_, .ifThen ht hleft hderives hright (.blockBranch hbody) (by simp [hmark]),
    fun span => ?_⟩
  simp only [Stmt.erase, Stmt.mapAnn, herase, heraseBody]

theorem readsForm_ifElse {a : α} {no : List (Stmt α)} {ln : List Lexeme}
    (h : ReadsAt e.binding ls e) (hyes : ReadsBody lb body) (hno : ReadsBody ln no) :
    ReadsForm (.keyword .ifWord :: .symbol .leftParen ::
      (ls ++ .symbol .rightParen :: (braced lb ++ .keyword .elseWord :: braced ln)))
      (.ifElse a e body (some no)) := by
  intro ts mark hts _
  obtain ⟨t, left, us, right, vs, e', rfl, ht, hleft, hderives, hright, hvs, herase⟩ :=
    exists_guarded h hts
  obtain ⟨ws, xs, rfl, hws, hxs⟩ := List.map_eq_append_iff.mp hvs
  obtain ⟨other, ys, rfl, hother, hys⟩ := List.map_eq_cons_iff.mp hxs
  obtain ⟨yes', hyes', heraseYes⟩ := hyes.block other hws
  obtain ⟨no', hno', heraseNo⟩ := hno.block mark hys
  refine ⟨_, .ifElse ht hleft hderives hright (.blockBranch hyes') hother (.blockBranch hno'),
    fun span => ?_⟩
  simp only [Stmt.erase, Stmt.mapAnn, herase, heraseYes, heraseNo]

theorem readsForm_whileLoop {a : α} (h : ReadsAt e.binding ls e) (hbody : ReadsBody lb body) :
    ReadsForm (.keyword .whileWord :: .symbol .leftParen ::
      (ls ++ .symbol .rightParen :: braced lb)) (.whileLoop a e body) := by
  intro ts mark hts _
  obtain ⟨t, left, us, right, vs, e', rfl, ht, hleft, hderives, hright, hvs, herase⟩ :=
    exists_guarded h hts
  obtain ⟨body', hbody', heraseBody⟩ := hbody.block mark hvs
  refine ⟨_, .whileLoop ht hleft hderives hright (.blockBranch hbody'), fun span => ?_⟩
  simp only [Stmt.erase, Stmt.mapAnn, herase, heraseBody]

theorem readsForm_forEach {a : α} (h : ReadsAt e.binding ls e) (hbody : ReadsBody lb body) :
    ReadsForm (.keyword .forWord :: .symbol .leftParen :: .identifier name :: .keyword .inWord ::
      (ls ++ .symbol .rightParen :: braced lb)) (.forEach a name e body) := by
  intro ts mark hts _
  obtain ⟨word, us, rfl, hword, hus⟩ := List.map_eq_cons_iff.mp hts
  obtain ⟨left, vs, rfl, hleft, hvs⟩ := List.map_eq_cons_iff.mp hus
  obtain ⟨label, ws, rfl, hlabel, hws⟩ := List.map_eq_cons_iff.mp hvs
  obtain ⟨within, xs, rfl, hwithin, hxs⟩ := List.map_eq_cons_iff.mp hws
  obtain ⟨ys, zs, rfl, hys, hzs⟩ := List.map_eq_append_iff.mp hxs
  obtain ⟨right, bs, rfl, hright, hbs⟩ := List.map_eq_cons_iff.mp hzs
  obtain ⟨e', hderives, herase⟩ := h.mono (Nat.zero_le _) hys (endsAt_of_isCloser hright rfl 0)
  obtain ⟨body', hbody', heraseBody⟩ := hbody.block mark hbs
  refine ⟨_, .forEach hword hleft hlabel hwithin hderives hright (.blockBranch hbody'),
    fun span => ?_⟩
  simp only [Expr.erase] at herase
  simp only [Stmt.erase, Stmt.mapAnn, herase, heraseBody]

theorem readsForm_tryCatch {a : α} {handler : List (Stmt α)} {lh : List Lexeme}
    (hbody : ReadsBody lb body) (hhandler : ReadsBody lh handler) :
    ReadsForm (.keyword .tryWord :: (braced lb ++ .keyword .catchWord :: .symbol .leftParen ::
      .identifier name :: .symbol .rightParen :: braced lh)) (.tryCatch a body name handler) := by
  intro ts mark hts _
  obtain ⟨word, us, rfl, hword, hus⟩ := List.map_eq_cons_iff.mp hts
  obtain ⟨vs, ws, rfl, hvs, hws⟩ := List.map_eq_append_iff.mp hus
  obtain ⟨rescue, xs, rfl, hrescue, hxs⟩ := List.map_eq_cons_iff.mp hws
  obtain ⟨left, ys, rfl, hleft, hys⟩ := List.map_eq_cons_iff.mp hxs
  obtain ⟨label, zs, rfl, hlabel, hzs⟩ := List.map_eq_cons_iff.mp hys
  obtain ⟨right, bs, rfl, hright, hbs⟩ := List.map_eq_cons_iff.mp hzs
  obtain ⟨body', hbody', heraseBody⟩ := hbody.block rescue hvs
  obtain ⟨handler', hhandler', heraseHandler⟩ := hhandler.block mark hbs
  refine ⟨_, .tryCatch hword hbody' hrescue hleft hlabel hright hhandler', fun span => ?_⟩
  simp only [Stmt.erase, Stmt.mapAnn, heraseBody, heraseHandler]

theorem readsForm_throw {a : α} (h : ReadsAt e.binding ls e) :
    ReadsForm (.keyword .throwWord :: ls) (.throw a e) := by
  intro ts mark hts hmark
  obtain ⟨word, us, rfl, hword, hus⟩ := List.map_eq_cons_iff.mp hts
  obtain ⟨e', hderives, herase⟩ := h.before_semicolon hus hmark
  refine ⟨_, .throw hword hderives, fun span => ?_⟩
  simp only [Stmt.erase, Stmt.mapAnn, herase]

theorem readsForm_retValue {a : α} (h : ReadsAt e.binding ls e) :
    ReadsForm (.keyword .returnWord :: ls) (.ret a (some e)) := by
  intro ts mark hts hmark
  obtain ⟨word, us, rfl, hword, hus⟩ := List.map_eq_cons_iff.mp hts
  obtain ⟨e', hderives, herase⟩ := h.before_semicolon hus hmark
  refine ⟨_, .retValue hword hderives, fun span => ?_⟩
  simp only [Stmt.erase, Stmt.mapAnn, herase]

/-- A statement of one word. -/
theorem readsForm_word {word : Keyword} {s : Stmt α} {build : Span → Stmt Span}
    (h : ∀ t mark, t.lexeme = .keyword word → mark.lexeme = .symbol .semicolon →
      Derives (.form build) [t] mark) (herase : ∀ span, (build span).erase = s.erase) :
    ReadsForm [.keyword word] s := by
  intro ts mark hts hmark
  obtain ⟨t, rfl, ht⟩ := List.map_eq_singleton_iff.mp hts
  exact ⟨build, h t mark ht hmark, herase⟩

end Statements

end Script.Grammar
