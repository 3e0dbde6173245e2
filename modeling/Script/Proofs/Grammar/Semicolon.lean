import Script.Proofs.Grammar.Moving
import Script.Proofs.Grammar.Sequence

/-!
# Optional semicolons

A semicolon may be put behind every statement of a program that does not end with one, and the
program stays the same.  It need not be the statement itself that takes the semicolon.  If the
statement ends with a branch that is a single statement, that one takes it, at whatever depth it
stands; and whether an `else` follows is then looked for behind the semicolon.  Either way the tree
is the same up to spans, since a statement covers the semicolons that the statements inside of it
have taken.

## Main definitions

* `Phrase.Takes`: what becomes of a phrase with a semicolon behind it.
* `TokenStream.Reads`: statements that are parsed one after the other.
* `TokenStream.insertHere`: a stream with one more token.

## Main results

* `Derives.takes`: every phrase either takes the semicolon or leaves it to what is around it.
* `TokenStream.reads_insertHere`: a semicolon behind a statement of a program.
-/

namespace Script

namespace Grammar

variable {phrase : Phrase} {ts us : List Token} {next mark : Token}

/-- What becomes of a phrase with the semicolon `mark` behind it.  A statement takes the semicolon.
A form, or a branch, ends in front of it, or ends with a statement that takes it. -/
def Phrase.Takes (mark next : Token) : Phrase → List Token → Prop
  | branch body, ts => Derives (.branch body) ts mark ∨
      ∃ body', body'.map Stmt.erase = body.map Stmt.erase ∧
        Derives (.branch body') (ts ++ [mark]) next
  | form build, ts => Derives (.form build) ts mark ∨
      ∃ build', (∀ a b, (build' a).erase = (build b).erase) ∧
        Derives (.form build') (ts ++ [mark]) next
  | statement s, ts => ∃ s', s'.erase = s.erase ∧ Derives (.statement s') (ts ++ [mark]) next
  | _, _ => True

theorem opensBrace_append (hts : ts ≠ []) (us : List Token) :
    opensBrace (ts ++ us) = opensBrace ts := by
  cases ts with
  | nil => exact absurd rfl hts
  | cons t ts => rfl

theorem EndsSemicolon.append (ts : List Token) (h : EndsSemicolon us) :
    EndsSemicolon (ts ++ us) := by
  have hne : us ≠ [] := by
    rintro rfl
    cases h
  unfold EndsSemicolon
  rwa [lastLexeme?_append ts hne]

/-- **A semicolon is taken, or left to what is around.**  The cases in which it is taken are those
in which a form ends with a branch. -/
theorem Derives.takes (hmark : mark.lexeme = .symbol .semicolon) (h : Derives phrase ts next)
    (hnot : ¬ EndsSemicolon ts) : phrase.Takes mark next ts := by
  have hends : EndsStatement mark := .inl hmark
  induction h with
  | blockBranch h => exact .inl (.blockBranch (h.before_ending hends rfl))
  | singleBranch h hopen ih =>
    obtain ⟨s', hs', hderives⟩ := ih hnot
    have hbrace := (opensBrace_append (h.ne_nil rfl) [mark]).trans hopen
    exact .inr ⟨[s'], by simp [hs'], .singleBranch hderives hbrace⟩
  | bare h hnext ih =>
    rcases ih hnot with hform | ⟨build', hbuild, hform⟩
    · exact ⟨_, rfl, .ended hform hmark⟩
    · exact ⟨_, hbuild _ _, .bare hform hnext⟩
  | ended _ hsemi => exact absurd (by simp [EndsSemicolon, lastLexeme?, hsemi]) hnot
  | letVar hword hlabel _ => exact .inl (.letVar hword hlabel (by simp [hmark]))
  | letInit hword hlabel hassign h =>
    exact .inl (.letInit hword hlabel hassign (h.before_ending hends rfl))
  | function hword hlabel h => exact .inl (.function hword hlabel (h.before_ending hends rfl))
  | @ifThen test _ _ _ _ _ _ _ hword hleft htest hright _ hnext _ ih =>
    rcases ih fun hsemi => hnot (((hsemi.append [_]).append _).append [_, _]) with
      hyes | ⟨yes', heq, hyes⟩
    · exact .inl (.ifThen hword hleft htest hright hyes (by simp [hmark]))
    · refine .inr ⟨fun span => .ifElse span test yes' none, fun a b => ?_, ?_⟩
      · simp only [Stmt.erase_ifElse, heq]
      · simpa using Derives.ifThen hword hleft htest hright hyes hnext
  | @ifElse test yes _ _ _ _ _ _ _ _ _ hword hleft htest hright hyes hother _ _ _ ih =>
    rcases ih fun hsemi =>
        hnot (((((hsemi.append [_]).append _).append [_]).append _).append [_, _]) with
      hno | ⟨no', heq, hno⟩
    · exact .inl (.ifElse hword hleft htest hright hyes hother hno)
    · refine .inr ⟨fun span => .ifElse span test yes (some no'), fun a b => ?_, ?_⟩
      · simp only [Stmt.erase_ifElse, Option.map_some, heq]
      · simpa using Derives.ifElse hword hleft htest hright hyes hother hno
  | @whileLoop test _ _ _ _ _ _ _ hword hleft htest hright _ _ ih =>
    rcases ih fun hsemi => hnot (((hsemi.append [_]).append _).append [_, _]) with
      hbody | ⟨body', heq, hbody⟩
    · exact .inl (.whileLoop hword hleft htest hright hbody)
    · refine .inr ⟨fun span => .whileLoop span test body', fun a b => ?_, ?_⟩
      · simp only [Stmt.erase_whileLoop, heq]
      · simpa using Derives.whileLoop hword hleft htest hright hbody
  | @forEach name e _ _ _ _ _ _ _ _ _ hword hleft hlabel hwithin h hright _ _ ih =>
    rcases ih fun hsemi => hnot (((hsemi.append [_]).append _).append [_, _, _, _]) with
      hbody | ⟨body', heq, hbody⟩
    · exact .inl (.forEach hword hleft hlabel hwithin h hright hbody)
    · refine .inr ⟨fun span => .forEach span name e body', fun a b => ?_, ?_⟩
      · simp only [Stmt.erase_forEach, heq]
      · simpa using Derives.forEach hword hleft hlabel hwithin h hright hbody
  | tryCatch hword hbody hrescue hleft hlabel hright hhandler =>
    exact .inl (.tryCatch hword hbody hrescue hleft hlabel hright
      (hhandler.before_ending hends rfl))
  | throw hword h => exact .inl (.throw hword (h.before_ending hends rfl))
  | ret hword _ => exact .inl (.ret hword hends)
  | retValue hword h => exact .inl (.retValue hword (h.before_ending hends rfl))
  | brk hword => exact .inl (.brk hword)
  | cont hword => exact .inl (.cont hword)
  | blockForm h => exact .inl (.blockForm (h.before_ending hends rfl))
  | exprForm h hblock hdeclaration =>
    exact .inl (.exprForm (h.before_ending hends rfl) hblock hdeclaration)
  | assign | noAssign | binary | tighter | unary | noUnary | call | index | field | notApplied
  | number | text | trueWord | falseWord | undefined | var | parens | array | map | lambda
  | namedLambda | noItems | oneItem | moreItems | noEntries | oneEntry | moreEntries | noParams
  | oneParam | moreParams | code | noStatements | moreStatements | block => trivial

end Grammar

/-! ## Streams -/

namespace TokenStream

open Grammar

variable {s t u v w : TokenStream} {body before after : List (Stmt Span)} {stmt : Stmt Span}
variable {ts : List Token} {mark : Token}

/-- **Statements one after the other.**  From the stream `s`, the parser yields the statements
`body`, and stands at `u` behind them. -/
inductive Reads : TokenStream → List (Stmt Span) → TokenStream → Prop where
  | nil {s : TokenStream} : Reads s [] s
  | cons {s t u : TokenStream} {stmt : Stmt Span} {body : List (Stmt Span)}
      (hfirst : s.parseNext = (.ok stmt, t)) (hrest : Reads t body u) : Reads s (stmt :: body) u

/-- The whole stream from its first token on, with one more token in front of the current one. -/
def insertHere (s : TokenStream) (mark : Token) : TokenStream :=
  match s.behind.reverse with
  | [] => ⟨[], mark, s.rest⟩
  | first :: before => ⟨[], first, before ++ mark :: s.rest⟩

theorem Reads.append {more : List (Stmt Span)} (h : s.Reads body t) (h' : t.Reads more u) :
    s.Reads (body ++ more) u := by
  induction h with
  | nil => exact h'
  | cons hfirst _ ih => exact .cons hfirst (ih h')

/-- Statements are the same wherever their tokens stand, if the same token follows them. -/
theorem Reads.elsewhere (hs : s.Closed) (h : s.Reads body u) :
    ∃ ts, s.Passes ts u ∧
      ∀ {s' u' : TokenStream}, s'.Passes ts u' → u'.here = u.here → s'.Reads body u' := by
  induction h with
  | nil =>
    refine ⟨[], .refl _, fun hpass _ => ?_⟩
    rw [hpass.eq_of_nil]
    exact .nil
  | @cons s t u stmt body hfirst _ ih =>
    obtain ⟨ts, hpass, hderives⟩ := derives_of_parseNext hs hfirst
    obtain ⟨us, hrest, hsame⟩ := ih (hpass.closed hs)
    refine ⟨ts ++ us, hpass.trans hrest, fun {s' u'} hpass' hhere => ?_⟩
    obtain ⟨t', hfirst', hrest'⟩ := hpass'.split
    have hnext : t'.here = t.here := by rw [hrest'.here_eq_headD, hrest.here_eq_headD, hhere]
    rw [← hnext] at hderives
    exact .cons (parseNext_of_derives hfirst' hderives) (hsame hrest' hhere)

theorem insertHere_passes (s : TokenStream) (mark : Token) :
    (s.insertHere mark).Passes (s.behind.reverse ++ [mark])
      ⟨mark :: s.behind, s.here, s.ahead⟩ := by
  have hbehind : s.behind = s.behind.reverse.reverse := (List.reverse_reverse _).symm
  unfold insertHere
  cases hreverse : s.behind.reverse with
  | nil =>
    rw [hreverse] at hbehind
    exact ⟨rfl, by simp [hbehind]⟩
  | cons first before =>
    rw [hreverse] at hbehind
    exact ⟨by simp [rest], by simp [hbehind]⟩

/-- The tokens in front of the current one are those that have been passed. -/
theorem Passes.reverse_behind (h : s.Passes ts u) (hstart : s.behind = []) :
    u.behind.reverse = ts := by
  rw [h.behind_eq, hstart, List.append_nil, List.reverse_reverse]

/-- **A semicolon may be put behind every statement that does not end with one.**  Let a stream be
read to its end, and let `stmt` be one of its statements, with `v` the place behind it.  If the last
token of the statement is no semicolon, the stream with one more semicolon at this place is read to
its end as well.  Its statements are the same, the one that is followed by the semicolon up to
spans. -/
theorem reads_insertHere (hs : s.Closed) (hstart : s.behind = []) (hbefore : s.Reads before u)
    (hstmt : u.parseNext = (.ok stmt, v)) (hafter : v.Reads after w)
    (hend : w.hasRemaining = false)
    (hlast : v.previous?.map Token.lexeme ≠ some (.symbol .semicolon))
    (hmark : mark.lexeme = .symbol .semicolon) :
    ∃ stmt' w', (v.insertHere mark).Reads (before ++ stmt' :: after) w' ∧
      w'.hasRemaining = false ∧ stmt'.erase = stmt.erase := by
  obtain ⟨ts, hts, hbefore'⟩ := hbefore.elsewhere hs
  obtain ⟨us, hus, hderives⟩ := derives_of_parseNext (hts.closed hs) hstmt
  obtain ⟨vs, hvs, hafter'⟩ := hafter.elsewhere ((hts.trans hus).closed hs)
  have hne : us ≠ [] := hderives.ne_nil rfl
  -- the statement takes the semicolon
  have hnot : ¬ EndsSemicolon us := by
    intro hsemi
    refine hlast ?_
    rw [previous?, ← List.getLast?_reverse, (hts.trans hus).reverse_behind hstart]
    exact hsemi.append ts
  obtain ⟨stmt', herase, hderives'⟩ := hderives.takes hmark hnot
  -- the places in the stream with the semicolon
  have hfront := v.insertHere_passes mark
  rw [(hts.trans hus).reverse_behind hstart, List.append_assoc] at hfront
  obtain ⟨u', hts', hus'⟩ := hfront.split
  have hu' : u'.here = u.here := by
    obtain ⟨t, us, rfl⟩ := List.exists_cons_of_ne_nil hne
    rw [hus'.here_eq_headD, hus.here_eq_headD]
    rfl
  have hvs' : TokenStream.Passes ⟨mark :: v.behind, v.here, v.ahead⟩ vs
      ⟨vs.reverse ++ mark :: v.behind, w.here, w.ahead⟩ := ⟨hvs.rest_eq, rfl⟩
  have hrest := hafter' hvs' rfl
  exact ⟨stmt', _, (hbefore' hts' hu').append (.cons (parseNext_of_derives hus' hderives') hrest),
    hend, herase⟩

/-- The semicolon behind `c` is taken by the innermost statement, and the declaration that follows
stays a statement of its own. -/
theorem reads_insertHere_nested :
    ∃ s stmt declaration v w, ofSource "if (a) if (b) c let d" = .ok s ∧ s.Closed ∧
      s.behind = [] ∧ s.parseNext = (.ok stmt, v) ∧ v.parseNext = (.ok declaration, w) ∧
      w.hasRemaining = false ∧ v.previous?.map Token.lexeme = some (.identifier "c") ∧
      stmt.erase = .ifElse () (.var () "a")
        [.ifElse () (.var () "b") [.expr () (.var () "c")] none] none ∧
      ∃ stmt' w', (v.insertHere ⟨.symbol .semicolon, ⟨15, 16⟩⟩).Reads [stmt', declaration] w' ∧
        w'.hasRemaining = false ∧ stmt'.erase = stmt.erase := by
  have hsource : ofSource "if (a) if (b) c let d" = .ok (.ofTokens
      [⟨.keyword .ifWord, ⟨0, 2⟩⟩, ⟨.symbol .leftParen, ⟨3, 4⟩⟩, ⟨.identifier "a", ⟨4, 5⟩⟩,
        ⟨.symbol .rightParen, ⟨5, 6⟩⟩, ⟨.keyword .ifWord, ⟨7, 9⟩⟩, ⟨.symbol .leftParen, ⟨10, 11⟩⟩,
        ⟨.identifier "b", ⟨11, 12⟩⟩, ⟨.symbol .rightParen, ⟨12, 13⟩⟩, ⟨.identifier "c", ⟨14, 15⟩⟩,
        ⟨.keyword .letWord, ⟨16, 19⟩⟩, ⟨.identifier "d", ⟨20, 21⟩⟩] (.endAt 21)) := by rfl
  have hclosed := ofSource_closed hsource
  exact ⟨_, _, _, _, _, hsource, hclosed, rfl, rfl, rfl, rfl, rfl, rfl,
    reads_insertHere hclosed rfl .nil rfl (.cons rfl .nil) rfl (by decide) rfl⟩

end TokenStream

end Script
