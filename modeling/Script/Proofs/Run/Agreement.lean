import Script.Proofs.Grammar.Sequence
import Script.Proofs.Run.Layout
import Script.Proofs.Token.Composition

/-!
# Sessions and batch runs agree

A session that evaluates lines one by one and a batch run over the same lines as one source do the
same, if each line is a program of its own that ends with a semicolon.  There are two reasons for
this.  The statements are the same: a line end closes every token, and a semicolon closes every
statement.  And what a statement does depends on the namespace only: neither the output so far nor
the observer has a part in it.  So a session differs from a batch run in the echoes only.

## Main definitions

* `perform`: what statements do in a namespace, with the sequence of their writes.
* `IsWhole`: a line that is a program of its own.
* `Session.evalLines`: a session up to the first line that raises or exits.

## Main results

* `readProgram_lines`: the program of lines that are joined.
* `Pass.runStatements_eq_perform`: a pass, in terms of `perform`.
* `batch_agrees_with_session`: the agreement.
-/

namespace Script

open Grammar

variable {ω : Type}

/-! ## Lines -/

/-- **A line that is a program of its own.**  It splits into tokens, all of which are parsed, and
the last of them, if there is one, is a semicolon. -/
def IsWhole (line : String) : Prop :=
  ∃ ts program, Lexer.scan line.toList = .ok ts ∧ readProgram line = .ok program ∧
    program.failure = none ∧ (ts = [] ∨ EndsSemicolon ts)

instance (line : String) : Decidable (IsWhole line) :=
  match hscan : Lexer.scan line.toList, hread : readProgram line with
  | .error _, _ => .isFalse (by rintro ⟨_, _, h, -⟩; cases hscan.symm.trans h)
  | .ok _, .error _ => .isFalse (by rintro ⟨_, _, -, h, -⟩; cases hread.symm.trans h)
  | .ok ts, .ok program =>
    decidable_of_iff (program.failure = none ∧ (ts = [] ∨ EndsSemicolon ts)) <| by
      constructor
      · exact fun h => ⟨ts, program, hscan, hread, h⟩
      · rintro ⟨_, _, hscan', hread', h⟩
        cases hscan.symm.trans hscan'
        cases hread.symm.trans hread'
        exact h

/-- The statements of a line. -/
def lineCode (line : String) : List (Stmt Unit) :=
  match readProgram line with
  | .error _ => []
  | .ok program => program.code

theorem ofSource_of_scan {source : String} {ts : List Token}
    (h : Lexer.scan source.toList = .ok ts) :
    TokenStream.ofSource source = .ok (.ofTokens ts (.endAt source.length)) := by
  unfold TokenStream.ofSource
  rw [h]
  rfl

/-- Tokens up to the first end mark. -/
theorem eq_of_append_mark {ts us more : List Token} {last mark : Token} (hts : Lexer.Unmarked ts)
    (hmark : mark.isEnd = true) (h : ts ++ [last] = us ++ mark :: more) : ts = us := by
  rcases List.eq_nil_or_concat more with rfl | ⟨init, final, rfl⟩
  · exact (List.append_inj' h rfl).1
  · -- the mark would be among the tokens in front of the last one
    have hsplit : ts ++ [last] = (us ++ mark :: init) ++ [final] := by simpa using h
    obtain ⟨rfl, -⟩ := List.append_inj' hsplit rfl
    have hmem := hts mark (by simp)
    exact absurd (by simpa [Token.isEnd] using hmark) hmem

/-- The tokens of a whole line derive its statements. -/
theorem IsWhole.derives {line : String} (h : IsWhole line) :
    ∃ ts body mark, Lexer.scan line.toList = .ok ts ∧ (ts = [] ∨ EndsSemicolon ts) ∧
      Derives (.statements body) ts mark ∧ body.map Stmt.erase = lineCode line := by
  obtain ⟨ts, program, hscan, hread, hfailure, hended⟩ := h
  have hsource := ofSource_of_scan hscan
  have hclosed := TokenStream.ofSource_closed hsource
  have hprogram : program = TokenStream.program _ hclosed := by
    rw [readProgram_of_ok hsource] at hread
    exact (Except.ok.inj hread).symm
  subst hprogram
  obtain ⟨us, u, hpass, hend, hderives⟩ := TokenStream.derives_of_program hclosed hfailure
  have hrest := hpass.rest_eq
  rw [TokenStream.rest_ofTokens] at hrest
  obtain rfl := eq_of_append_mark (Lexer.unmarked_of_scan hscan) hend hrest
  refine ⟨ts, _, u.here, hscan, hended, hderives, ?_⟩
  rw [lineCode, hread]
  rfl

/-- Lines that are joined have the lexemes of the lines, one line after the other, and these derive
the statements of the lines. -/
theorem derives_lines {lines : List String} (h : ∀ line ∈ lines, IsWhole line) (n : Nat) :
    ∃ ts us body, Lexer.scan ("\n".intercalate lines).toList = .ok ts ∧
      ts.map Token.lexeme = us.map Token.lexeme ∧ Derives (.statements body) us (.endAt n) ∧
      body.map Stmt.erase = lines.flatMap lineCode := by
  induction lines with
  | nil => exact ⟨[], [], [], rfl, rfl, .noStatements (.inr rfl), rfl⟩
  | cons line lines ih =>
    obtain ⟨ts, body, mark, hscan, hended, hderives, hcode⟩ := (h line (by simp)).derives
    obtain ⟨ts', us', body', hscan', hlexemes, hderives', hcode'⟩ :=
      ih fun l hl => h l (List.mem_cons_of_mem _ hl)
    have hboth := hderives.statements_append hended hderives'
    have hcodes : (body ++ body').map Stmt.erase = (line :: lines).flatMap lineCode := by
      rw [List.map_append, hcode, hcode', List.flatMap_cons]
    cases lines with
    | nil =>
      have hnone : Lexer.scan ("\n".intercalate []).toList = .ok [] := rfl
      obtain rfl := Except.ok.inj (hnone.symm.trans hscan')
      refine ⟨ts, ts ++ us', body ++ body', ?_, ?_, hboth, hcodes⟩
      · rw [String.intercalate_singleton]
        exact hscan
      · rw [List.map_append, ← hlexemes, List.map_nil, List.append_nil]
    | cons next lines =>
      have htext : ("\n".intercalate (line :: next :: lines)).toList =
          line.toList ++ '\n' :: ("\n".intercalate (next :: lines)).toList := by
        rw [String.intercalate_cons_cons, String.toList_append, String.toList_append]
        simp
      have hjoined := Lexer.scan_newline hscan ("\n".intercalate (next :: lines)).toList
      rw [hscan', ← htext] at hjoined
      refine ⟨_, ts ++ us', body ++ body', hjoined, ?_, hboth, hcodes⟩
      have hshift : ∀ k, Token.lexeme ∘ Token.shift k = Token.lexeme := fun _ => rfl
      rw [List.map_append, List.map_append, List.map_map, hshift, hlexemes]

/-- **The program of lines that are joined** has the statements of the lines. -/
theorem readProgram_lines {lines : List String} (h : ∀ line ∈ lines, IsWhole line) :
    ∃ program, readProgram ("\n".intercalate lines) = .ok program ∧ program.failure = none ∧
      program.code = lines.flatMap lineCode := by
  obtain ⟨ts, us, body, hscan, hlexemes, hderives, hcode⟩ := derives_lines h 0
  have hsource := ofSource_of_scan hscan
  have hplain : (TokenStream.ofTokens us (.endAt 0)).Closed := TokenStream.ofTokens_closed us 0
  have hprogram : TokenStream.program _ hplain = ⟨body, none⟩ :=
    TokenStream.program_of_derives hplain (TokenStream.ofTokens_passes us (.endAt 0)) rfl hderives
  have halike : (TokenStream.ofTokens ts (.endAt ("\n".intercalate lines).length)).Alike
      (.ofTokens us (.endAt 0)) := by
    refine TokenStream.alike_of_rest ?_
    rw [TokenStream.rest_ofTokens, TokenStream.rest_ofTokens, List.map_append, List.map_append,
      hlexemes]
    rfl
  have hsame := halike.program (TokenStream.ofSource_closed hsource) hplain
  rw [hprogram] at hsame
  refine ⟨_, readProgram_of_ok hsource, ?_⟩
  generalize TokenStream.program _ (TokenStream.ofSource_closed hsource) = program at hsame
  cases hsame with
  | complete hbody => exact ⟨rfl, hbody.trans hcode⟩

/-! ## Statements and their writes -/

/-- A write to the output of a session: what a statement prints, or the echo of its value. -/
inductive Write where
  | printed (text : String)
  | echoed (text : String)

namespace Write

/-- The text that is written. -/
def text : Write → String
  | printed text => text
  | echoed text => text

/-- Whether the write is no echo. -/
def isPrinted : Write → Bool
  | printed _ => true
  | echoed _ => false

end Write

/-- The text of a sequence of writes. -/
def written (writes : List Write) : String := String.join (writes.map Write.text)

theorem written_cons (w : Write) (writes : List Write) :
    written (w :: writes) = w.text ++ written writes :=
  String.join_cons

theorem written_append (writes more : List Write) :
    written (writes ++ more) = written writes ++ written more := by
  unfold written
  rw [List.map_append, String.join_append]

/-- What statements come to: the stop of the last one, unless all were completed, the namespace
after them, and their writes. -/
structure Execution where
  stop : Option Stop
  ns : Namespace
  writes : List Write

/-- The execution with writes in front of its own. -/
def Execution.behind (writes : List Write) (e : Execution) : Execution :=
  ⟨e.stop, e.ns, writes ++ e.writes⟩

/-- **What statements do in a namespace.**  Each writes what it prints, and then its value is
echoed.  The first one that stops is the last one. -/
def perform (fuel : Nat) : List (Stmt Unit) → Namespace → Execution
  | [], ns => ⟨none, ns, []⟩
  | s :: rest, ns =>
    let effect := s.effect fuel ns
    match effect.result with
    | .error stop => ⟨some stop, effect.ns, [.printed effect.printed]⟩
    | .ok value =>
      (perform fuel rest effect.ns).behind
        [.printed effect.printed, .echoed (effect.ns.store.display value ++ "\n")]

section Perform

variable {fuel : Nat} {s : Stmt Unit} {body : List (Stmt Unit)} {ns : Namespace} {stop : Stop}
variable {value : Value}

theorem perform_of_error (h : (s.effect fuel ns).result = .error stop) :
    perform fuel (s :: body) ns =
      ⟨some stop, (s.effect fuel ns).ns, [.printed (s.effect fuel ns).printed]⟩ := by
  rw [perform, h]

theorem perform_of_ok (h : (s.effect fuel ns).result = .ok value) :
    perform fuel (s :: body) ns =
      (perform fuel body (s.effect fuel ns).ns).behind
        [.printed (s.effect fuel ns).printed,
          .echoed ((s.effect fuel ns).ns.store.display value ++ "\n")] := by
  rw [perform, h]

/-- Statements that are completed are followed by what comes after them. -/
theorem perform_append_of_none (h : (perform fuel body ns).stop = none) (more : List (Stmt Unit)) :
    perform fuel (body ++ more) ns =
      (perform fuel more (perform fuel body ns).ns).behind (perform fuel body ns).writes := by
  induction body generalizing ns with
  | nil => rfl
  | cons s body ih =>
    rw [List.cons_append]
    cases hresult : (s.effect fuel ns).result with
    | error stop =>
      rw [perform_of_error hresult] at h
      cases h
    | ok value =>
      rw [perform_of_ok hresult] at h
      rw [perform_of_ok hresult, perform_of_ok hresult, ih h]
      simp [Execution.behind]

/-- After a stop, nothing is run. -/
theorem perform_append_of_some (h : (perform fuel body ns).stop = some stop)
    (more : List (Stmt Unit)) : perform fuel (body ++ more) ns = perform fuel body ns := by
  induction body generalizing ns with
  | nil => cases h
  | cons s body ih =>
    rw [List.cons_append]
    cases hresult : (s.effect fuel ns).result with
    | error stop => rw [perform_of_error hresult, perform_of_error hresult]
    | ok value =>
      rw [perform_of_ok hresult] at h
      rw [perform_of_ok hresult, perform_of_ok hresult, ih h]

end Perform

/-- The observer writes the echoes that `keeps` keeps, and nothing else. -/
def Observer.Keeps (o : Observer ω) (keeps : Write → Bool) : Prop :=
  ∀ value σ text seen, o value σ (.holding text) seen =
    (.ok (), .holding (text ++ written ([.echoed (σ.display value ++ "\n")].filter keeps)), seen)

theorem Observer.keeps_echo : Observer.echo.Keeps fun _ => true := by
  intro value σ text seen
  simp [Observer.echo, written, Write.text]

theorem Observer.keeps_discard : Observer.discard.Keeps Write.isPrinted := by
  intro value σ text seen
  simp [Observer.discard, written, Write.isPrinted]

/-- **A pass is an execution** whose writes are kept in part. -/
theorem Pass.runStatements_eq_perform {p : Pass ω} {keeps : Write → Bool}
    (hkeeps : p.observer.Keeps keeps) (hprinted : ∀ text, keeps (.printed text) = true)
    (ending : Except Error Flow) (body : List (Stmt Unit)) (ns : Namespace) (text : String)
    (seen : ω) :
    p.runStatements ending body ⟨ns, .holding text, seen⟩ =
      (((perform p.fuel body ns).stop.map p.halt).getD ending,
        ⟨(perform p.fuel body ns).ns,
          .holding (text ++ written ((perform p.fuel body ns).writes.filter keeps)), seen⟩) := by
  induction body generalizing ns text with
  | nil => simp [runStatements, perform, written]
  | cons s body ih =>
    have hopen : (⟨ns, .holding text, seen⟩ : Progress ω).sink.limit = none := rfl
    obtain ⟨m, hresume, houtcome⟩ := s.evaluate_of_effect p.fuel hopen
    unfold runStatements
    cases hresult : (s.effect p.fuel ns).result with
    | error stop =>
      rw [perform_of_error hresult]
      simp only [hresult] at houtcome
      simp only [houtcome, hresume]
      simp [Sink.holding, written, hprinted, Write.text]
    | ok value =>
      rw [perform_of_ok hresult]
      simp only [hresult] at houtcome
      simp only [houtcome, hresume, observe, hkeeps value]
      rw [ih]
      simp only [Execution.behind, List.cons_append, List.nil_append, List.filter_cons_of_pos,
        hprinted, written_cons, Write.text, String.append_assoc, ← written_append,
        ← List.filter_append]
      rfl

/-- How a pass ends that performs all statements of a source. -/
def Pass.ends (p : Pass ω) (e : Execution) : Except Error Flow :=
  (e.stop.map p.halt).getD (.ok .exhausted)

/-- A source that is parsed to its end is run as its statements are performed. -/
theorem Pass.runSource_eq_perform {p : Pass ω} {keeps : Write → Bool}
    (hkeeps : p.observer.Keeps keeps) (hprinted : ∀ text, keeps (.printed text) = true)
    {source : String} {program : Program} (hread : readProgram source = .ok program)
    (hfailure : program.failure = none) {now : Progress ω} (hsink : now.sink.limit = none)
    {e : Execution} (he : perform p.fuel program.code now.ns = e) :
    p.runSource source now =
      (p.ends e,
        ⟨e.ns, .holding (now.sink.stored ++ written (e.writes.filter keeps)), now.seen⟩) := by
  subst he
  obtain ⟨ns, sink, seen⟩ := now
  obtain ⟨text, rfl⟩ : ∃ text, sink = .holding text := ⟨_, Sink.eq_holding hsink⟩
  rw [runSource_eq_runStatements, hread]
  simp only [hfailure]
  exact runStatements_eq_perform hkeeps hprinted _ program.code ns text seen

/-! ## Sessions -/

namespace Session

/-- How a line ends, before a failure of the script is reported and forgotten. -/
def lineEnding (fuel : Nat) (line : String) (s : Session) : Except Error Flow :=
  ((pass fuel).runSource line ⟨s.ns, s.out, ()⟩).1

/-- Evaluates lines one by one, up to and including the first one that raises or exits, and says how
that line ended. -/
def evalLines (fuel : Nat) : List String → Session → Except Error Flow × Session
  | [], s => (.ok .exhausted, s)
  | line :: rest, s =>
    match s.lineEnding fuel line with
    | .ok .exhausted => evalLines fuel rest (s.evalLine fuel line).2
    | ending => (ending, (s.evalLine fuel line).2)

/-- What a session reports of an execution. -/
def reports (e : Execution) : String :=
  match e.stop with
  | some (.raise payload) => e.ns.store.display payload ++ "\n"
  | _ => ""

/-- The session after an execution: all writes are in its output. -/
def after (s : Session) (e : Execution) : Session :=
  ⟨e.ns, .holding (s.out.stored ++ written e.writes), s.err ++ reports e⟩

/-- Statements that are completed leave nothing to report. -/
theorem after_after {e : Execution} (he : e.stop = none) (s : Session) (more : Execution) :
    (s.after e).after more = s.after (more.behind e.writes) := by
  have hreports : reports e = "" := by rw [reports, he]
  have hmore : reports (more.behind e.writes) = reports more := rfl
  unfold after
  rw [hreports, hmore, Execution.behind]
  simp [Sink.holding, written_append, String.append_assoc]

variable {fuel : Nat} {line : String} {lines : List String} {s : Session} {e : Execution}

/-- A whole line is a pass over its statements. -/
theorem runSource_of_isWhole (hline : IsWhole line) (hout : s.out.limit = none)
    (he : perform fuel (lineCode line) s.ns = e) :
    (pass fuel).runSource line ⟨s.ns, s.out, ()⟩ =
      ((pass fuel).ends e, ⟨e.ns, .holding (s.out.stored ++ written e.writes), ()⟩) := by
  obtain ⟨_, program, -, hread, hfailure, -⟩ := hline
  rw [lineCode, hread] at he
  have hall : e.writes.filter (fun _ => true) = e.writes := List.filter_eq_self.mpr fun _ _ => rfl
  have hopen : (⟨s.ns, s.out, ()⟩ : Progress Unit).sink.limit = none := hout
  have hrun := Pass.runSource_eq_perform (p := pass fuel) Observer.keeps_echo (fun _ => rfl) hread
    hfailure hopen he
  rw [hall] at hrun
  exact hrun

/-- A value that is raised is reported, and nothing else. -/
theorem evalLine_of_isWhole (hline : IsWhole line) (hout : s.out.limit = none)
    (he : perform fuel (lineCode line) s.ns = e) : (s.evalLine fuel line).2 = s.after e := by
  unfold evalLine after reports
  simp only [runSource_of_isWhole hline hout he, Pass.ends]
  cases e.stop with
  | none => simp
  | some stop =>
    cases stop with
    | raise payload =>
      simp [Pass.halt, Pass.interrupt, pass, report, ScriptFailure.report, String.append_assoc]
    | exit code | fault f | outOfFuel => simp [Pass.halt]

/-- **A session over whole lines** performs the statements of the lines. -/
theorem evalLines_eq_perform (hlines : ∀ line ∈ lines, IsWhole line) (hout : s.out.limit = none)
    (he : perform fuel (lines.flatMap lineCode) s.ns = e) :
    s.evalLines fuel lines = ((pass fuel).ends e, s.after e) := by
  induction lines generalizing s e with
  | nil =>
    subst he
    have hsame : s.after ⟨none, s.ns, []⟩ = s := by
      obtain ⟨ns, ⟨text, limit⟩, err⟩ := s
      cases hout
      simp [after, reports, written, Sink.holding]
    exact congrArg (Prod.mk _) hsame.symm
  | cons line lines ih =>
    have hline : IsWhole line := hlines line (by simp)
    have hrest : ∀ l ∈ lines, IsWhole l := fun l hl => hlines l (List.mem_cons_of_mem _ hl)
    obtain ⟨first, hfirst⟩ : ∃ e, perform fuel (lineCode line) s.ns = e := ⟨_, rfl⟩
    rw [List.flatMap_cons] at he
    rw [evalLines, evalLine_of_isWhole hline hout hfirst, lineEnding,
      runSource_of_isWhole hline hout hfirst]
    cases hstop : first.stop with
    | none =>
      have hends : (pass fuel).ends first = .ok .exhausted := by rw [Pass.ends, hstop]; rfl
      rw [hends]
      have happend := perform_append_of_none (hfirst ▸ hstop) (lines.flatMap lineCode)
      rw [hfirst, he] at happend
      subst happend
      rw [ih hrest rfl rfl, after_after hstop]
      rfl
    | some stop =>
      have hends : (pass fuel).ends first = (pass fuel).halt stop := by rw [Pass.ends, hstop]; rfl
      have happend := perform_append_of_some (hfirst ▸ hstop) (lines.flatMap lineCode)
      rw [he, hfirst] at happend
      subst happend
      rw [hends]
      cases stop with
      | raise payload | exit code | fault f | outOfFuel => rfl

end Session

/-! ## The agreement -/

/-- A session and a batch run end in the same way: all statements are completed, or the same exit is
asked for, or the same value is raised.  The policy is that of each. -/
inductive SameEnding : Except Error Flow → Except Error Flow → Prop
  | flow (f : Flow) : SameEnding (.ok f) (.ok f)
  | raised (payload : Value) :
      SameEnding (.error (.script ⟨.eval payload, .recoverable⟩))
        (.error (.script ⟨.eval payload, .fatal⟩))
  | other {e : Error} (he : ∀ i, e ≠ .script i) : SameEnding (.error e) (.error e)

theorem sameEnding_ends (fuel : Nat) (e : Execution) :
    SameEnding ((Session.pass fuel).ends e) ((Batch.pass fuel).ends e) := by
  unfold Pass.ends
  cases e.stop with
  | none => exact .flow .exhausted
  | some stop =>
    cases stop with
    | raise payload => exact .raised payload
    | exit code => exact .flow (.exit code)
    | fault f => exact .other (by simp)
    | outOfFuel => exact .other (by simp)

/-- A batch run over whole lines performs the statements of the lines, and echoes nothing. -/
theorem Batch.runSource_eq_perform {fuel : Nat} {lines : List String} {b : Batch} {e : Execution}
    (hlines : ∀ line ∈ lines, IsWhole line) (hsink : b.sink.limit = none)
    (he : perform fuel (lines.flatMap lineCode) b.ns = e) :
    b.runSource fuel ("\n".intercalate lines) =
      ((pass fuel).ends e,
        ⟨e.ns, .holding (b.sink.stored ++ written (e.writes.filter Write.isPrinted))⟩) := by
  obtain ⟨program, hread, hfailure, hcode⟩ := readProgram_lines hlines
  rw [← hcode] at he
  have hopen : (⟨b.ns, b.sink, ()⟩ : Progress Unit).sink.limit = none := hsink
  have hrun :=
    Pass.runSource_eq_perform (p := pass fuel) Observer.keeps_discard (fun _ => rfl) hread
      hfailure hopen he
  unfold runSource
  rw [hrun]

/-- What a session and a batch run that perform the same statements have in common: how both end,
the namespace, and the writes, of which the batch run has those that are no echoes.  A value that is
raised is reported by the session. -/
structure Agreement (e : Execution) (s : Session) (b : Batch)
    (session : Except Error Flow × Session) (batch : Except Error Flow × Batch) : Prop where
  ending : SameEnding session.1 batch.1
  ns : session.2.ns = batch.2.ns
  out : session.2.out = .holding (s.out.stored ++ written e.writes)
  err : session.2.err = s.err ++ Session.reports e
  sink : batch.2.sink = .holding (b.sink.stored ++ written (e.writes.filter Write.isPrinted))

/-- **Sessions and batch runs agree.**  Let every line be a program of its own that ends with a
semicolon or has no tokens.  A session that evaluates the lines one by one, up to and including the
first one that raises or exits, and a batch run over the lines joined by line ends end in the same
way and with the same namespace.  The session has written all writes of the statements of the lines,
and the batch run has written the same without the echoes. -/
theorem batch_agrees_with_session (fuel : Nat) {lines : List String}
    (hlines : ∀ line ∈ lines, IsWhole line) {s : Session} {b : Batch} (hns : s.ns = b.ns)
    (hout : s.out.limit = none) (hsink : b.sink.limit = none) :
    Agreement (perform fuel (lines.flatMap lineCode) s.ns) s b (s.evalLines fuel lines)
      (b.runSource fuel ("\n".intercalate lines)) := by
  have he : perform fuel (lines.flatMap lineCode) b.ns =
      perform fuel (lines.flatMap lineCode) s.ns := by rw [hns]
  rw [Session.evalLines_eq_perform hlines hout rfl, Batch.runSource_eq_perform hlines hsink he]
  exact ⟨sameEnding_ends fuel _, rfl, rfl, rfl, rfl⟩

/-- Four lines, of which the second has no tokens and the third raises a value. -/
def raisingLines : List String :=
  ["let x = true; x;", " // nothing", "println(x); throw x;", "x;"]

/-- The value is raised in both, the last line is not evaluated, and only `println` is seen in the
output of the batch run. -/
theorem batch_agrees_with_session_raising :
    (∀ line ∈ raisingLines, IsWhole line) ∧
      Agreement (perform 9 (raisingLines.flatMap lineCode) .prelude) Session.start Batch.start
        (Session.start.evalLines 9 raisingLines)
        (Batch.start.runSource 9 ("\n".intercalate raisingLines)) ∧
      (Session.start.evalLines 9 raisingLines).2.out.stored = "true\ntrue\ntrue\nundefined\n" ∧
      (Batch.start.runSource 9 ("\n".intercalate raisingLines)).2.sink.stored = "true\n" := by
  have hlines : ∀ line ∈ raisingLines, IsWhole line := by decide +kernel
  have hns : Session.start.ns = Batch.start.ns := rfl
  have hout : Session.start.out.limit = none := rfl
  have hsink : Batch.start.sink.limit = none := rfl
  exact ⟨hlines, batch_agrees_with_session 9 hlines hns hout hsink, by decide +kernel,
    by decide +kernel⟩

end Script
