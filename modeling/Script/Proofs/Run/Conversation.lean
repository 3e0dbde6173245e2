import Mathlib.Data.List.InsertIdx
import Script.Proofs.Eval.Validity
import Script.Proofs.Run.Agreement
import Script.Proofs.Run.Lines

/-!
# Sessions are conversations

A session over an input answers one line after the other.  What a line comes to depends on the
namespace only: the output, the reports and the lines before it have no other part in it.  So a
session is a sequence of replies, and its output and its reports are those of the replies, one after
the other.

No failure of a script ends a session.  What ends it is the end of the input, a line that exits, or
a line that is no text.  A line without a statement that can be run leaves the namespace alone, so
the other lines are answered in the same way without it.

## Main definitions

* `Session.Reply`, `Session.reply`: what a line comes to in a namespace.
* `Session.converse`: the replies to lines, and how they end.
* `Session.concluded`: a session after a conversation.
* `Session.Conversation.Ended`: how a conversation can end.
* `Session.NoStatement`: a line that fails before any statement of it is run.

## Main results

* `Session.evalLine_eq_reply`: one line.
* `Session.run_eq_concluded`: a session is a conversation.
* `Session.converse_ended`: no failure of a script ends a conversation.
* `Session.converse_eraseIdx`: a conversation without a line that has no statement.
* `session_law`: the law of sessions.
-/

namespace Script

/-! ## Statements keep the store closed -/

/-- A statement at the top level keeps the store closed, and stops with no fault. -/
theorem Stmt.effect_closed (fuel : Nat) (s : Stmt Unit) {ns : Namespace}
    (hns : ns.store.Closed) :
    (s.effect fuel ns).ns.store.Closed ∧ ∀ f, (s.effect fuel ns).result ≠ .error (.fault f) := by
  have hsafe := safe_evaluate fuel s (m := ⟨ns.store, .holding "", ns.root, 0⟩) hns
  unfold effect
  generalize s.evaluate fuel ⟨ns.store, .holding "", ns.root, 0⟩ = r at hsafe
  cases hsafe with
  | ok hclosed _ _ => exact ⟨hclosed, fun f h => nomatch h⟩
  | error hclosed _ hstop =>
    refine ⟨hclosed, fun f h => ?_⟩
    cases h
    exact hstop

theorem perform_closed (fuel : Nat) (body : List (Stmt Unit)) {ns : Namespace}
    (hns : ns.store.Closed) :
    (perform fuel body ns).ns.store.Closed ∧
      ∀ f, (perform fuel body ns).stop ≠ some (.fault f) := by
  induction body generalizing ns with
  | nil => exact ⟨hns, fun f h => nomatch h⟩
  | cons s body ih =>
    obtain ⟨hclosed, hfault⟩ := s.effect_closed fuel hns
    cases hresult : (s.effect fuel ns).result with
    | error stop =>
      rw [perform_of_error hresult]
      refine ⟨hclosed, fun f h => hfault f ?_⟩
      cases h
      exact hresult
    | ok value =>
      rw [perform_of_ok hresult]
      exact ih hclosed

theorem Namespace.closed_installNative {ns : Namespace} (hns : ns.store.Closed) (n : Native) :
    (ns.installNative n).store.Closed :=
  (hns.newFunction (.native n)).define ns.root n.name (by simp [Store.Has, Store.newFunction])

/-- The store of a new namespace is closed. -/
theorem Namespace.closed_prelude : Namespace.prelude.store.Closed := by
  have hstore : Store.empty.Closed := by
    intro v hv
    cases hv with
    | item hitems | entry hitems | binding hitems => exact absurd hitems (Array.not_mem_empty _)
  have hempty : Namespace.empty.store.Closed := hstore.newScope none fun e he => nomatch he
  exact closed_installNative (closed_installNative hempty .println) .exit

namespace Session

/-! ## One line -/

/-- What a line comes to: how the session goes on, the namespace after the line, what its statements
and the echoes of their values write, and the report of a failure. -/
structure Reply where
  ending : Except Error Flow
  ns : Namespace
  printed : String
  report : String

/-- How a session goes on after statements that came to the given stop.  It goes on to the next line
if a value was raised. -/
def afterStop : Option Stop → Except Error Flow
  | none | some (.raise _) => .ok .exhausted
  | some (.exit code) => .ok (.exit code)
  | some (.fault f) => .error (.faulty f)
  | some .outOfFuel => .error .outOfFuel

/-- The failure of a program, if it has one: a value that was raised, or tokens after the statements
that are no statement. -/
def failure? (program : Program) : Option Stop → Option ScriptFailure
  | none => program.failure.map .parse
  | some (.raise payload) => some (.eval payload)
  | some _ => none

/-- The report of a failure, on lines of its own. -/
def reported (σ : Store) : Option ScriptFailure → String
  | none => ""
  | some failure => failure.report σ ++ "\n"

/-- **What a line comes to in a namespace.** -/
def reply (fuel : Nat) (line : String) (ns : Namespace) : Reply :=
  match readProgram line with
  | .error e => ⟨.ok .exhausted, ns, "", reported ns.store (some (.lex e))⟩
  | .ok program =>
    let e := perform fuel program.code ns
    ⟨afterStop e.stop, e.ns, written e.writes, reported e.ns.store (failure? program e.stop)⟩

/-- The session after a reply. -/
def answered (s : Session) (r : Reply) : Session :=
  ⟨r.ns, .holding (s.out.stored ++ r.printed), s.err ++ r.report⟩

/-- **A line is answered with its reply.** -/
theorem evalLine_eq_reply {s : Session} (hout : s.out.limit = none) (fuel : Nat) (line : String) :
    s.evalLine fuel line = ((reply fuel line s.ns).ending, s.answered (reply fuel line s.ns)) := by
  obtain ⟨ns, out, err⟩ := s
  obtain ⟨text, rfl⟩ : ∃ text, out = .holding text := ⟨_, Sink.eq_holding hout⟩
  unfold evalLine reply answered
  rw [Pass.runSource_eq_runStatements]
  cases readProgram line with
  | error e => simp [Pass.interrupt, pass, report, reported, Sink.holding, String.append_assoc]
  | ok program =>
    have hall : ∀ writes : List Write, writes.filter (fun _ => true) = writes :=
      fun writes => List.filter_eq_self.mpr fun _ _ => rfl
    have hrun := Pass.runStatements_eq_perform (p := pass fuel) Observer.keeps_echo (fun _ => rfl)
      ((pass fuel).ending program.failure) program.code ns text ()
    rw [hall] at hrun
    simp only [hrun]
    -- a value that was raised and a failure of the parser are reported, and nothing else is
    have hfuel : (pass fuel).fuel = fuel := rfl
    rw [hfuel]
    cases (perform fuel program.code ns).stop with
    | none =>
      cases hfailure : program.failure with
      | none => simp [hfailure, Pass.ending, afterStop, failure?, reported, Sink.holding]
      | some e =>
        simp [hfailure, Pass.ending, Pass.interrupt, pass, report, afterStop, failure?, reported,
          Sink.holding, String.append_assoc]
    | some stop =>
      cases stop with
      | raise payload =>
        simp [Pass.halt, Pass.interrupt, pass, report, afterStop, failure?, reported,
          Sink.holding, String.append_assoc]
      | exit code | fault f | outOfFuel =>
        simp [Pass.halt, afterStop, failure?, reported, Sink.holding]

/-! ## Conversations -/

/-- Replies to lines, how they end, and the namespace after them. -/
structure Conversation where
  replies : List Reply
  ending : Except Error Flow
  ns : Namespace

/-- **The replies to lines.**  A line without a text ends the conversation before a reply, and a
line after which the session does not go on ends it with its reply. -/
def converse (fuel : Nat) : List (Option String) → Namespace → Conversation
  | [], ns => ⟨[], .ok .exhausted, ns⟩
  | none :: _, ns => ⟨[], .error (.io .notUtf8), ns⟩
  | some line :: rest, ns =>
    let r := reply fuel line ns
    match r.ending with
    | .ok .exhausted =>
      let c := converse fuel rest r.ns
      ⟨r :: c.replies, c.ending, c.ns⟩
    | ending => ⟨[r], ending, r.ns⟩

/-- What is written after the last reply: a prompt, if a further line was asked for, and a line end
if there is none. -/
def farewell : Except Error Flow → String
  | .ok .exhausted => prompt ++ "\n"
  | .error (.io _) => prompt
  | _ => ""

/-- The texts of replies, each behind a prompt. -/
def shown (replies : List Reply) : String := String.join (replies.map fun r => prompt ++ r.printed)

/-- The reports of replies. -/
def complaints (replies : List Reply) : String := String.join (replies.map Reply.report)

theorem shown_cons (r : Reply) (rs : List Reply) :
    shown (r :: rs) = prompt ++ r.printed ++ shown rs :=
  String.join_cons

theorem complaints_cons (r : Reply) (rs : List Reply) :
    complaints (r :: rs) = r.report ++ complaints rs :=
  String.join_cons

/-- The session after a conversation. -/
def concluded (s : Session) (c : Conversation) : Except Error Flow × Session :=
  (c.ending, ⟨c.ns, .holding (s.out.stored ++ shown c.replies ++ farewell c.ending),
    s.err ++ complaints c.replies⟩)

theorem emit_of_unlimited {s : Session} (hout : s.out.limit = none) (texts : List String) :
    s.emit texts = (.ok (), { s with out := .holding (s.out.stored ++ String.join texts) }) := by
  obtain ⟨ns, out, err⟩ := s
  obtain ⟨text, rfl⟩ : ∃ text, out = .holding text := ⟨_, Sink.eq_holding hout⟩
  induction texts generalizing text with
  | nil => simp [emit, Sink.holding, String.join]
  | cons first rest ih =>
    have hrest := ih (text ++ first) rfl
    simp only [emit, Sink.write_holding, hrest, String.join_cons]
    simp [Sink.holding, String.append_assoc]

theorem converse_of_exhausted {fuel : Nat} {line : String} {ns : Namespace}
    (h : (reply fuel line ns).ending = .ok .exhausted) (rest : List (Option String)) :
    converse fuel (some line :: rest) ns =
      ⟨reply fuel line ns :: (converse fuel rest (reply fuel line ns).ns).replies,
        (converse fuel rest (reply fuel line ns).ns).ending,
        (converse fuel rest (reply fuel line ns).ns).ns⟩ := by
  rw [converse]
  simp only [h]

theorem converse_of_ended {fuel : Nat} {line : String} {ns : Namespace}
    (h : (reply fuel line ns).ending ≠ .ok .exhausted) (rest : List (Option String)) :
    converse fuel (some line :: rest) ns =
      ⟨[reply fuel line ns], (reply fuel line ns).ending, (reply fuel line ns).ns⟩ := by
  rw [converse]
  split
  · next heq => exact absurd heq h
  · rfl

/-- A line is followed by a further prompt only if the session goes on. -/
theorem farewell_of_reply {fuel : Nat} {line : String} {ns : Namespace}
    (h : (reply fuel line ns).ending ≠ .ok .exhausted) :
    farewell (reply fuel line ns).ending = "" := by
  revert h
  unfold reply
  cases readProgram line with
  | error e => exact fun h => absurd rfl h
  | ok program =>
    dsimp only
    cases (perform fuel program.code ns).stop with
    | none => exact fun h => absurd rfl h
    | some stop =>
      cases stop with
      | raise payload => exact fun h => absurd rfl h
      | exit code | fault f | outOfFuel => exact fun _ => rfl

theorem runLines_of_exhausted {s t : Session} {fuel : Nat} {line : List UInt8}
    (h : s.answer fuel line = (.ok .exhausted, t)) (rest : List (List UInt8)) :
    s.runLines fuel (line :: rest) = t.runLines fuel rest := by
  rw [runLines, h]

theorem runLines_of_ended {s : Session} {fuel : Nat} {line : List UInt8}
    (h : (s.answer fuel line).1 ≠ .ok .exhausted) (rest : List (List UInt8)) :
    s.runLines fuel (line :: rest) = s.answer fuel line := by
  rw [runLines]
  split
  · next heq => exact absurd (congrArg Prod.fst heq) h
  · next heq => exact heq.symm

theorem join_singleton (text : String) : String.join [text] = text := by
  simp [String.join]

/-- **A line of the input** is answered behind a prompt. -/
theorem answer_eq_reply {s : Session} (hout : s.out.limit = none) (fuel : Nat) {line : List UInt8}
    {text : String} (htext : decodeLine? line = some text) :
    s.answer fuel line =
      ((reply fuel text s.ns).ending,
        ⟨(reply fuel text s.ns).ns,
          .holding (s.out.stored ++ (prompt ++ (reply fuel text s.ns).printed)),
          s.err ++ (reply fuel text s.ns).report⟩) := by
  simp only [answer, emit_of_unlimited hout, join_singleton, respond, htext]
  rw [evalLine_eq_reply rfl, answered, ← String.append_assoc]
  rfl

/-- **The lines of an input are a conversation.** -/
theorem runLines_eq_concluded {s : Session} (hout : s.out.limit = none) (fuel : Nat)
    (lines : List (List UInt8)) :
    s.runLines fuel lines = s.concluded (converse fuel (lines.map decodeLine?) s.ns) := by
  induction lines generalizing s with
  | nil =>
    simp only [runLines, emit_of_unlimited hout]
    simp [concluded, converse, shown, complaints, farewell, String.join]
  | cons line lines ih =>
    rw [List.map_cons]
    cases htext : decodeLine? line with
    | none =>
      have hanswer : s.answer fuel line =
          (.error (.io .notUtf8), { s with out := .holding (s.out.stored ++ prompt) }) := by
        simp only [answer, emit_of_unlimited hout, join_singleton, respond, htext]
      rw [runLines_of_ended (by rw [hanswer]; exact fun h => nomatch h), hanswer]
      simp [concluded, converse, shown, complaints, farewell, String.join]
    | some text =>
      have hanswer := answer_eq_reply hout fuel htext
      by_cases hending : (reply fuel text s.ns).ending = .ok .exhausted
      · rw [hending] at hanswer
        rw [runLines_of_exhausted hanswer, ih rfl, converse_of_exhausted hending]
        simp only [concluded, shown_cons, complaints_cons, String.append_assoc, Sink.holding]
      · rw [runLines_of_ended (by rw [hanswer]; exact hending), hanswer, converse_of_ended hending]
        simp [concluded, farewell_of_reply hending, shown, complaints, String.join]

/-! ## Sessions -/

/-- The texts of the lines of an input. -/
def texts (input : List UInt8) : List (Option String) := (lines input).map decodeLine?

/-- The conversation of a session over an input. -/
def conversation (fuel : Nat) (s : Session) (input : List UInt8) : Conversation :=
  converse fuel (texts input) s.ns

/-- The session when its first line was written. -/
def greeted (s : Session) : Session := { s with out := .holding (s.out.stored ++ banner ++ "\n") }

/-- **A session is a conversation.** -/
theorem run_eq_concluded {s : Session} (hout : s.out.limit = none) (fuel : Nat)
    (input : List UInt8) :
    s.run fuel input = s.greeted.concluded (s.conversation fuel input) := by
  have hgreeted : s.emit [banner, "\n"] = (.ok (), s.greeted) := by
    rw [emit_of_unlimited hout, String.join_cons, join_singleton, ← String.append_assoc]
    rfl
  rw [run, hgreeted]
  dsimp only
  rw [runLines_eq_concluded rfl, map_decodeLine?_splitLines]
  rfl

/-! ## How sessions end -/

/-- A reply keeps the store closed, and does not come to a fault. -/
theorem reply_closed (fuel : Nat) (line : String) {ns : Namespace} (hns : ns.store.Closed) :
    (reply fuel line ns).ns.store.Closed ∧
      ((reply fuel line ns).ending = .ok .exhausted ∨
        (∃ code, (reply fuel line ns).ending = .ok (.exit code)) ∨
        (reply fuel line ns).ending = .error .outOfFuel) := by
  unfold reply
  cases readProgram line with
  | error e => exact ⟨hns, .inl rfl⟩
  | ok program =>
    obtain ⟨hclosed, hfault⟩ := perform_closed fuel program.code hns
    refine ⟨hclosed, ?_⟩
    dsimp only
    cases hstop : (perform fuel program.code ns).stop with
    | none => exact .inl rfl
    | some stop =>
      cases stop with
      | raise payload => exact .inl rfl
      | exit code => exact .inr (.inl ⟨code, rfl⟩)
      | fault f => exact absurd hstop (hfault f)
      | outOfFuel => exact .inr (.inr rfl)

/-- **How a conversation ends**: behind the last line, with a line that exits, or before a line that
is no text.  The session goes on after all other replies. -/
inductive Conversation.Ended (lines : List (Option String)) (c : Conversation) : Prop
  | exhausted (hending : c.ending = .ok .exhausted) (hall : c.replies.length = lines.length)
      (hgoes : ∀ r ∈ c.replies, r.ending = .ok .exhausted)
  | exit (code : Int32) (rs : List Reply) (r : Reply) (hending : c.ending = .ok (.exit code))
      (hreplies : c.replies = rs ++ [r]) (hlast : r.ending = .ok (.exit code))
      (hgoes : ∀ r ∈ rs, r.ending = .ok .exhausted)
  | noText (hending : c.ending = .error (.io .notUtf8))
      (hline : lines[c.replies.length]? = some none)
      (hgoes : ∀ r ∈ c.replies, r.ending = .ok .exhausted)

theorem converse_ended {fuel : Nat} {lines : List (Option String)} {ns : Namespace}
    (hns : ns.store.Closed) (hfuel : (converse fuel lines ns).ending ≠ .error .outOfFuel) :
    (converse fuel lines ns).Ended lines := by
  induction lines generalizing ns with
  | nil => exact .exhausted rfl rfl fun r hr => nomatch hr
  | cons line rest ih =>
    cases line with
    | none => exact .noText rfl rfl fun r hr => nomatch hr
    | some line =>
      obtain ⟨hclosed, hexhausted | ⟨code, hexit⟩ | hout⟩ := reply_closed fuel line hns
      · rw [converse_of_exhausted hexhausted] at hfuel ⊢
        have hgoes : ∀ {rs : List Reply}, (∀ r ∈ rs, r.ending = .ok .exhausted) →
            ∀ r ∈ reply fuel line ns :: rs, r.ending = .ok .exhausted :=
          fun h => List.forall_mem_cons.mpr ⟨hexhausted, h⟩
        cases ih hclosed hfuel with
        | exhausted hending hall hrest =>
          exact .exhausted hending (congrArg (· + 1) hall) (hgoes hrest)
        | exit code rs r hending hreplies hlast hrest =>
          exact .exit code (reply fuel line ns :: rs) r hending (congrArg _ hreplies) hlast
            (hgoes hrest)
        | noText hending hline hrest => exact .noText hending hline (hgoes hrest)
      · rw [converse_of_ended (by rw [hexit]; exact fun h => nomatch h)]
        exact .exit code [] _ hexit rfl hexit fun r hr => nomatch hr
      · rw [converse_of_ended (by rw [hout]; exact fun h => nomatch h)] at hfuel
        exact absurd hout hfuel

/-! ## Sessions without a line -/

/-- A line that fails before any statement of it is run: it has no tokens, or its first statement is
none. -/
def NoStatement (line : String) : Prop :=
  (∃ e, readProgram line = .error e) ∨ ∃ e, readProgram line = .ok ⟨[], some e⟩

/-- Such a line is reported, and nothing else happens. -/
theorem reply_of_noStatement {line : String} (h : NoStatement line) (fuel : Nat) (ns : Namespace) :
    ∃ failure : ScriptFailure,
      reply fuel line ns = ⟨.ok .exhausted, ns, "", failure.report ns.store ++ "\n"⟩ := by
  rcases h with ⟨e, he⟩ | ⟨e, he⟩
  · exact ⟨.lex e, by rw [reply, he]; rfl⟩
  · exact ⟨.parse e, by rw [reply, he]; rfl⟩

/-- **A conversation without a line** that has no statement is the conversation without the reply to
it.  If the line was not reached, there is no such reply. -/
theorem converse_eraseIdx {lines : List (Option String)} {i : Nat} {line : String}
    (hline : lines[i]? = some (some line)) (h : NoStatement line) (fuel : Nat) (ns : Namespace) :
    converse fuel (lines.eraseIdx i) ns =
        { converse fuel lines ns with replies := (converse fuel lines ns).replies.eraseIdx i } ∧
      ∀ r, (converse fuel lines ns).replies[i]? = some r →
        r.ending = .ok .exhausted ∧ r.printed = "" ∧
          ∃ failure : ScriptFailure, r.report = failure.report r.ns.store ++ "\n" := by
  induction lines generalizing i ns with
  | nil => cases hline
  | cons first rest ih =>
    cases i with
    | zero =>
      obtain rfl : first = some line := by simpa using hline
      obtain ⟨failure, hreply⟩ := reply_of_noStatement h fuel ns
      have hending : (reply fuel line ns).ending = .ok .exhausted := by rw [hreply]
      rw [converse_of_exhausted hending, hreply]
      refine ⟨rfl, fun r hr => ?_⟩
      cases hr
      exact ⟨rfl, rfl, failure, rfl⟩
    | succ i =>
      have hrest : rest[i]? = some (some line) := by simpa using hline
      rw [List.eraseIdx_cons_succ]
      cases first with
      | none => exact ⟨rfl, fun r hr => nomatch hr⟩
      | some first =>
        by_cases hending : (reply fuel first ns).ending = .ok .exhausted
        · obtain ⟨hsame, hreply⟩ := ih hrest (reply fuel first ns).ns
          rw [converse_of_exhausted hending, converse_of_exhausted hending, hsame]
          refine ⟨rfl, fun r hr => hreply r ?_⟩
          rwa [List.getElem?_cons_succ] at hr
        · rw [converse_of_ended hending, converse_of_ended hending]
          exact ⟨rfl, fun r hr => nomatch hr⟩

/-- **The law of sessions**, for a session over an input. -/
structure Law (fuel : Nat) (s : Session) (input : List UInt8) : Prop where
  /-- A line is read without the line ends behind it, if its bytes are those of a text. -/
  lines_read : ∀ line ∈ lines input, ∀ text : String, decodeLine? line = some text ↔
    (∀ c, text.toList.getLast? = some c → isLineEnd c = false) ∧
      ∃ ends : List Char, (∀ c ∈ ends, isLineEnd c = true) ∧
        line = (text.toList ++ ends).flatMap String.utf8EncodeChar
  /-- The session is the conversation over its lines. -/
  runs : s.run fuel input = s.greeted.concluded (s.conversation fuel input)
  /-- It ends with the last line, with a line that exits, or before a line that is no text. -/
  ends : (s.conversation fuel input).Ended (texts input)
  /-- A line without a statement can be left out of the input. -/
  removable : ∀ i, ∃ input', lines input' = (lines input).eraseIdx i
  /-- Without such a line, the session is the same but for the reply to the line, which prints
  nothing. -/
  without : ∀ i line, (texts input)[i]? = some (some line) → NoStatement line →
    ∀ input', lines input' = (lines input).eraseIdx i →
      s.run fuel input' = s.greeted.concluded { s.conversation fuel input with
          replies := (s.conversation fuel input).replies.eraseIdx i } ∧
        ∀ r, (s.conversation fuel input).replies[i]? = some r →
          r.ending = .ok .exhausted ∧ r.printed = "" ∧
            ∃ failure : ScriptFailure, r.report = failure.report r.ns.store ++ "\n"

end Session

/-- **Every session is a conversation that no failure of a script ends.**  It answers the lines of
its input in order in one namespace, up to the first line that exits or is no text.  It writes a
prompt and what the line prints for each of them, and reports their failures in order.  The lines
that fail before a statement of theirs is run change nothing for the others. -/
theorem session_law {s : Session} (hout : s.out.limit = none) (hns : s.ns.store.Closed) {fuel : Nat}
    {input : List UInt8} (hfuel : (s.run fuel input).1 ≠ .error .outOfFuel) :
    s.Law fuel input := by
  have hruns := Session.run_eq_concluded hout fuel input
  constructor
  · exact fun line _ text => Session.decodeLine?_eq_some_iff
  · exact hruns
  · rw [hruns] at hfuel
    exact Session.converse_ended hns hfuel
  · intro i
    refine ⟨_, Session.lines_flatMap fun line hline => ?_⟩
    exact Session.newline_notMem_of_mem_lines (List.mem_of_mem_eraseIdx hline)
  · intro i line hline hnone input' hinput'
    obtain ⟨hsame, hreply⟩ := Session.converse_eraseIdx hline hnone fuel s.ns
    refine ⟨?_, hreply⟩
    have htexts : Session.texts input' = (Session.texts input).eraseIdx i := by
      rw [Session.texts, Session.texts, hinput', List.eraseIdx_map]
    rw [Session.run_eq_concluded hout, Session.conversation, htexts, hsame]
    rfl

/-- A session of six lines: the second has no tokens, the third no statement, the fourth raises a
value, and the fifth is no text. -/
def troubledInput : List UInt8 :=
  "let x = true;\r\n\"\n);\nprintln(x); throw x;\n".toList.map Char.toUInt8 ++ [255, 10, 120]

/-- The three failures are reported, and the last line is not evaluated. -/
theorem law_of_troubled_session :
    Session.start.Law 9 troubledInput ∧
      (Session.start.run 9 troubledInput).1 = .error (.io .notUtf8) ∧
      (Session.start.run 9 troubledInput).2.out.stored =
        "PESL 0.1.0\n>>> true\n>>> >>> >>> true\nundefined\n>>> " ∧
      (Session.start.run 9 troubledInput).2.err =
        "Unterminated string literal\nAt index 0\n" ++
        "Unexpected token in expression\nAt token `)` [0, 1]\n" ++ "true\n" := by
  have hending : (Session.start.run 9 troubledInput).1 = .error (.io .notUtf8) := by
    decide +kernel
  refine ⟨session_law rfl Namespace.closed_prelude ?_, hending, by decide +kernel,
    by decide +kernel⟩
  rw [hending]
  exact fun h => nomatch h

end Script
