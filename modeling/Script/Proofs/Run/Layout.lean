import Script.Proofs.Run.TwoPhase

/-!
# Layout and comments play no part

What a program does depends on the lexemes of its source only.  Where the tokens stand, which blanks
and comments are between them and how texts are quoted is seen in the spans of diagnostics, and
nowhere else.

## Main definitions

* `EndsAlike`: two passes end in the same way, up to the span of the token that is at fault.

## Main results

* `readProgram_alike`: sources with the same lexemes hold the same program, up to spans.
* `runSource_of_lexemes_eq`: sources with the same lexemes run alike.
-/

namespace Script

variable {ω : Type}

/-- The lexemes of a source, if it has tokens. -/
def lexemes? (source : String) : Option (List Lexeme) :=
  (tokenize source).toOption.map (List.map Token.lexeme)

theorem exists_tokenize_of_lexemes {source : String} {lexemes : List Lexeme}
    (h : lexemes? source = some lexemes) :
    ∃ ts, tokenize source = .ok ts ∧ ts.map Token.lexeme = lexemes := by
  unfold lexemes? at h
  cases htokens : tokenize source with
  | error e =>
    rw [htokens] at h
    cases h
  | ok ts =>
    rw [htokens] at h
    exact ⟨ts, rfl, Option.some.inj h⟩

namespace TokenStream

theorem rest_ofTokens (ts : List Token) (last : Token) :
    (ofTokens ts last).rest = ts ++ [last] := by
  cases ts <;> rfl

theorem alike_of_rest {s t : TokenStream}
    (h : s.rest.map Token.lexeme = t.rest.map Token.lexeme) : s.Alike t := by
  obtain ⟨hhere, hahead⟩ := List.cons.inj h
  exact ⟨hhere, hahead⟩

/-- The stream of a source holds its tokens. -/
theorem ofSource_of_tokenize {source : String} {ts : List Token} (h : tokenize source = .ok ts) :
    ∃ s, ofSource source = .ok s ∧ s.rest = ts := by
  unfold tokenize at h
  unfold ofSource
  cases hscan : Lexer.scan source.toList with
  | error e =>
    rw [hscan] at h
    cases h
  | ok tokens =>
    rw [hscan] at h
    cases h
    exact ⟨_, rfl, rest_ofTokens tokens _⟩

end TokenStream

/-- **Sources with the same lexemes hold the same program**, up to spans. -/
theorem readProgram_alike {a b : String} {ts us : List Token} (ha : tokenize a = .ok ts)
    (hb : tokenize b = .ok us) (h : ts.map Token.lexeme = us.map Token.lexeme) :
    ∃ p q, readProgram a = .ok p ∧ readProgram b = .ok q ∧ p.Alike q := by
  obtain ⟨s, hs, rfl⟩ := TokenStream.ofSource_of_tokenize ha
  obtain ⟨t, ht, rfl⟩ := TokenStream.ofSource_of_tokenize hb
  have halike := TokenStream.alike_of_rest h
  exact ⟨_, _, readProgram_of_ok hs, readProgram_of_ok ht,
    halike.program (TokenStream.ofSource_closed hs) (TokenStream.ofSource_closed ht)⟩

/-- Two passes end in the same way: with the same flow, with the same raised value, with the same
message about tokens with the same lexeme, or with the same error that is not the script's.  A
failure of the script is met with the same policy. -/
inductive EndsAlike : Except Error Flow → Except Error Flow → Prop
  | flow (f : Flow) : EndsAlike (.ok f) (.ok f)
  | raised (payload : Value) (policy : Policy) :
      EndsAlike (.error (.script ⟨.eval payload, policy⟩))
        (.error (.script ⟨.eval payload, policy⟩))
  | unparsed {e f : ParseError} (policy : Policy) (hmessage : e.message = f.message)
      (hlexeme : e.token.lexeme = f.token.lexeme) :
      EndsAlike (.error (.script ⟨.parse e, policy⟩)) (.error (.script ⟨.parse f, policy⟩))
  | other {e : Error} (he : ∀ i, e ≠ .script i) : EndsAlike (.error e) (.error e)

namespace Pass

/-- A statement that stops the pass ends it in the same way whatever follows. -/
theorem endsAlike_halt (p : Pass ω) (stop : Stop) : EndsAlike (p.halt stop) (p.halt stop) := by
  cases stop with
  | raise payload => exact .raised payload p.policy
  | exit code => exact .flow (.exit code)
  | fault f => exact .other (by simp)
  | outOfFuel => exact .other (by simp)

/-- Only an observer that fails ends a pass with an error of the output. -/
theorem endsAlike_observe {p : Pass ω} {value : Value} {now now' : Progress ω} {e : Error}
    (h : p.observe value now = (.error e, now')) : EndsAlike (.error e) (.error e) := by
  unfold observe at h
  split at h
  · cases h
  · cases h
    exact .other (by simp)

theorem endsAlike_ending (p : Pass ω) {a b : Program} (h : a.Alike b) :
    EndsAlike (p.ending a.failure) (p.ending b.failure) := by
  cases h with
  | complete _ => exact .flow .exhausted
  | failed _ hfailure =>
    exact .unparsed p.policy (congrArg ParseError.Cause.message hfailure.cause) hfailure.lexeme

/-- The same statements do the same, and only then does it matter how the programs end. -/
theorem runStatements_alike (p : Pass ω) {r r' : Except Error Flow} (h : EndsAlike r r')
    (body : List (Stmt Unit)) (now : Progress ω) :
    (p.runStatements r body now).2 = (p.runStatements r' body now).2 ∧
      EndsAlike (p.runStatements r body now).1 (p.runStatements r' body now).1 := by
  induction body generalizing now with
  | nil => exact ⟨rfl, h⟩
  | cons s body ih =>
    unfold runStatements
    cases s.evaluate p.fuel (machine now) with
    | error stop m => exact ⟨rfl, p.endsAlike_halt stop⟩
    | ok value m =>
      rcases hobserve : p.observe value (resume now m) with ⟨e | _, now'⟩
      · simp only [hobserve]
        exact ⟨trivial, endsAlike_observe hobserve⟩
      · simp only [hobserve]
        exact ih now'

/-- **Layout and comments play no part.**  Let two sources have the same lexemes.  Then every pass
over the one and over the other does the same to every namespace: the store, function bodies
included, the output and what the observer has seen of the values are equal, and the passes end in
the same way. -/
theorem runSource_of_lexemes_eq (p : Pass ω) {a b : String} {ts us : List Token}
    (ha : tokenize a = .ok ts) (hb : tokenize b = .ok us)
    (h : ts.map Token.lexeme = us.map Token.lexeme) (now : Progress ω) :
    (p.runSource a now).2 = (p.runSource b now).2 ∧
      EndsAlike (p.runSource a now).1 (p.runSource b now).1 := by
  obtain ⟨pa, pb, hpa, hpb, halike⟩ := readProgram_alike ha hb h
  have hcode : pa.code = pb.code := by
    cases halike with
    | complete hcode | failed hcode _ => exact hcode
  rw [runSource_eq_runStatements, runSource_eq_runStatements, hpa, hpb]
  simp only [hcode]
  exact p.runStatements_alike (p.endsAlike_ending halike) pb.code now

/-- The lexemes of both sources are those of `let x = "a"; x(`, where the call is not closed. -/
theorem runSource_of_lexemes_eq_unclosed :
    let a := "let x='a';x("
    let b := "let x = \"a\"; // a text\n/* called */ x ("
    let now : Progress Unit := ⟨.prelude, .unlimited, ()⟩
    let lexemes : List Lexeme :=
      [.keyword .letWord, .identifier "x", .symbol .assign, .quoted "a", .symbol .semicolon,
        .identifier "x", .symbol .leftParen, .endOfInput]
    ∃ ts us, tokenize a = .ok ts ∧ tokenize b = .ok us ∧ ts.map Token.lexeme = lexemes ∧
      us.map Token.lexeme = lexemes ∧
      ((Session.pass 9).runSource a now).2 = ((Session.pass 9).runSource b now).2 ∧
      EndsAlike ((Session.pass 9).runSource a now).1 ((Session.pass 9).runSource b now).1 := by
  intro a b now lexemes
  obtain ⟨ts, hts, hlexemes⟩ := exists_tokenize_of_lexemes (show lexemes? a = some lexemes by
    decide +kernel)
  obtain ⟨us, hus, hlexemes'⟩ := exists_tokenize_of_lexemes (show lexemes? b = some lexemes by
    decide +kernel)
  have hsame := (Session.pass 9).runSource_of_lexemes_eq hts hus (hlexemes.trans hlexemes'.symm) now
  exact ⟨ts, us, hts, hus, hlexemes, hlexemes', hsame⟩

end Pass

end Script
