import Script.Proofs.Eval.Visit
import Script.Run.Session

/-!
# Where a stop goes

Somewhere inside a top-level statement an evaluation stops: a value is raised, or the program asks
to exit.  Unless a handler is in charge, the statement ends there and then.  A raised value is the
business of the innermost `try` statement in whose body it was raised, whatever lies between the
two, calls of other functions included.  An exit is nobody's business: it ends the statement, the
pass that runs it, and the session that runs the pass.

## Main definitions

* `Pass.ComesTo`, `Session.ComesTo`: the statements that a pass and a session come to run.

## Main results

* `Pass.ComesTo.runTokens_eq`: a pass ends with the statement that stops.
* `Session.ComesTo.runLines_eq`: a session ends with the statement that exits.
* `stop_comes_out_or_is_handled`: where a stop inside a statement goes.
-/

namespace Script

open Eval Outcome

/-! ## Passes and sessions -/

/-- The statement `t` is one that a pass comes to run, and then the pass stands at `now'`.  All
statements before it were completed, and the observer has seen their values. -/
inductive Pass.ComesTo {ω : Type} (p : Pass ω) :
    Nat → TokenStream → Progress ω → Stmt Unit → Progress ω → Prop
  | here {rounds tokens tokens' now s} (hmore : tokens.hasRemaining = true)
      (hparse : tokens.parseNext = (.ok s, tokens')) :
      p.ComesTo (rounds + 1) tokens now s.erase now
  | later {rounds tokens tokens' now now₁ now' s t value m} (hmore : tokens.hasRemaining = true)
      (hparse : tokens.parseNext = (.ok s, tokens'))
      (heval : s.erase.evaluate p.fuel (machine now) = .ok value m)
      (hobserve : p.observe value (resume now m) = (.ok (), now₁))
      (hrest : p.ComesTo rounds tokens' now₁ t now') : p.ComesTo (rounds + 1) tokens now t now'

/-- **A pass ends with the statement that stops.**  What comes after it in the stream is neither
parsed nor run, and the observer sees nothing more. -/
theorem Pass.ComesTo.runTokens_eq {ω : Type} {p : Pass ω} {rounds : Nat} {tokens : TokenStream}
    {now now' : Progress ω} {t : Stmt Unit} (h : p.ComesTo rounds tokens now t now')
    {stop : Stop} {m : Machine} (ht : t.evaluate p.fuel (machine now') = .error stop m) :
    p.runTokens rounds tokens now = (p.halt stop, resume now' m) := by
  induction h with
  | here hmore hparse =>
    unfold runTokens
    rw [if_pos hmore, hparse]
    simp only [ht]
  | later hmore hparse heval hobserve _ ih =>
    unfold runTokens
    rw [if_pos hmore, hparse]
    simp only [heval, hobserve]
    exact ih ht

/-- The statement `t` is one that a session comes to run, and then the pass over its line stands at
`now'` and the reports are `err`.  All lines before it were answered. -/
inductive Session.ComesTo (fuel : Nat) :
    List (List UInt8) → Session → Stmt Unit → Progress Unit → String → Prop
  | here {line rest s s₁ text tokens t now'} (hprompt : s.emit [prompt] = (.ok (), s₁))
      (htext : decodeLine? line = some text) (htokens : TokenStream.ofSource text = .ok tokens)
      (hpass : (pass fuel).ComesTo tokens.length tokens ⟨s₁.ns, s₁.out, ()⟩ t now') :
      ComesTo fuel (line :: rest) s t now' s₁.err
  | later {line rest s s₁ t now' err} (hanswer : s.answer fuel line = (.ok .exhausted, s₁))
      (hrest : ComesTo fuel rest s₁ t now' err) : ComesTo fuel (line :: rest) s t now' err

/-- **A session ends with the statement that exits.**  No later line is decoded or run, and nothing
more is written or reported. -/
theorem Session.ComesTo.runLines_eq {fuel : Nat} {lines : List (List UInt8)} {s : Session}
    {t : Stmt Unit} {now' : Progress Unit} {err : String} (h : ComesTo fuel lines s t now' err)
    {code : Int32} {m : Machine}
    (ht : t.evaluate fuel (Pass.machine now') = .error (.exit code) m) :
    s.runLines fuel lines = (.ok (.exit code), ⟨(Pass.resume now' m).ns, m.sink, err⟩) := by
  induction h with
  | @here line rest s s₁ text tokens t now' hprompt htext htokens hpass =>
    have hanswer : s.answer fuel line =
        (.ok (.exit code), ⟨(Pass.resume now' m).ns, m.sink, s₁.err⟩) := by
      simp only [answer, hprompt, respond, htext, evalLine, Pass.runSource, htokens]
      rw [hpass.runTokens_eq ht]
      rfl
    unfold runLines
    rw [hanswer]
  | later hanswer _ ih =>
    unfold runLines
    rw [hanswer]
    exact ih ht

/-! ## Stops -/

/-- A statement that stops ends the evaluation at the top level. -/
theorem evaluate_of_halts {fuel : Nat} {s : Stmt Unit} {m m' : Machine} {stop : Stop}
    (h : Visit.Halts ⟨fuel, .stmt s, m⟩ stop m') : s.evaluate fuel m = .error stop m' :=
  bind_of_error h

/-- **Where a stop goes.**  Let the visit `w` take place while the statement `s` runs, and let it
stop when the machine is `m'`.

* If no body of a `try` statement is in between, or if the stop is no raised value, then the
  statement ends with the same stop, and with the store and the output of `m'`.
* A raised value either is in no body of a `try` statement, or it goes to the handler of the
  innermost one.  From the moment at which it was raised, that `try` statement does what its handler
  does with this very value.
* An exit ends every pass and every session that runs the statement, with the store and the output
  of `m'`. -/
theorem stop_comes_out_or_is_handled {fuel : Nat} {s : Stmt Unit} {m m' : Machine} {w : Visit}
    {stop : Stop} (hw : Visit.Reaches ⟨fuel, .stmt s, m⟩ w) (hstop : w.Halts stop m') :
    (Visit.Leads ⟨fuel, .stmt s, m⟩ w ∨ (∀ payload, stop ≠ .raise payload) →
      s.evaluate fuel m = .error stop (m.withEffects m')) ∧
    (∀ payload, stop = .raise payload →
      Visit.Leads ⟨fuel, .stmt s, m⟩ w ∨
      ∃ n a body name handler m₁,
        Visit.Reaches ⟨fuel, .stmt s, m⟩ ⟨n + 1, .stmt (.tryCatch a body name handler), m₁⟩ ∧
        Visit.Leads ⟨n, .body .empty body, m₁⟩ w ∧
        execStmt (n + 1) (.tryCatch a body name handler) m₁ =
          (runBinding (execStmt n) name handler payload >>= fun flow => pure flow.settle)
            (m₁.withEffects m')) ∧
    (∀ code, stop = .exit code →
      (∀ {ω : Type} (p : Pass ω) rounds tokens now now', p.fuel = fuel → Pass.machine now' = m →
        p.ComesTo rounds tokens now s now' →
        p.runTokens rounds tokens now = (.ok (.exit code), Pass.resume now' m')) ∧
      (∀ (session opened : Session) input now' err, Pass.machine now' = m →
        session.emit [Session.banner, "\n"] = (.ok (), opened) →
        Session.ComesTo fuel (Session.splitLines input) opened s now' err →
        session.run fuel input =
          (.ok (.exit code), ⟨(Pass.resume now' m').ns, m'.sink, err⟩))) := by
  have hout : Visit.Leads ⟨fuel, .stmt s, m⟩ w ∨ (∀ payload, stop ≠ .raise payload) →
      s.evaluate fuel m = .error stop (m.withEffects m') := by
    rintro (hleads | hraise)
    · exact evaluate_of_halts (hleads.halts hstop)
    · exact evaluate_of_halts (hw.halts hraise hstop)
  refine ⟨hout, ?_, ?_⟩
  -- the last body of a `try` statement on the way is the innermost one
  · rintro payload rfl
    rcases hw.innermost with hleads | ⟨t, b, ht, htries, hb⟩
    · exact .inl hleads
    · cases htries with
      | @body n m₁ a body name handler =>
        have hhandled := Visit.Tries.handles a name handler (hb.halts hstop)
        exact .inr ⟨n, a, body, name, handler, m₁, ht, hb, hhandled⟩
  · rintro code rfl
    have hexit : s.evaluate fuel m = .error (.exit code) (m.withEffects m') :=
      hout (.inr (by simp))
    constructor
    · rintro ω p rounds tokens now now' rfl rfl hcomes
      exact hcomes.runTokens_eq hexit
    · rintro session opened input now' err rfl hopened hcomes
      unfold Session.run
      rw [hopened]
      have hrun := hcomes.runLines_eq hexit
      exact hrun

/-- The tokens of `try { try { [exit()]; } catch (e) { } } catch (e) { } println();`. -/
def exitInTries : TokenStream :=
  .ofTokens
    [⟨.keyword .tryWord, ⟨0, 3⟩⟩, ⟨.symbol .leftBrace, ⟨4, 5⟩⟩, ⟨.keyword .tryWord, ⟨6, 9⟩⟩,
      ⟨.symbol .leftBrace, ⟨10, 11⟩⟩, ⟨.symbol .leftBracket, ⟨12, 13⟩⟩,
      ⟨.identifier "exit", ⟨13, 17⟩⟩, ⟨.symbol .leftParen, ⟨17, 18⟩⟩,
      ⟨.symbol .rightParen, ⟨18, 19⟩⟩, ⟨.symbol .rightBracket, ⟨19, 20⟩⟩,
      ⟨.symbol .semicolon, ⟨20, 21⟩⟩, ⟨.symbol .rightBrace, ⟨22, 23⟩⟩,
      ⟨.keyword .catchWord, ⟨24, 29⟩⟩, ⟨.symbol .leftParen, ⟨30, 31⟩⟩, ⟨.identifier "e", ⟨31, 32⟩⟩,
      ⟨.symbol .rightParen, ⟨32, 33⟩⟩, ⟨.symbol .leftBrace, ⟨34, 35⟩⟩,
      ⟨.symbol .rightBrace, ⟨36, 37⟩⟩, ⟨.symbol .rightBrace, ⟨38, 39⟩⟩,
      ⟨.keyword .catchWord, ⟨40, 45⟩⟩, ⟨.symbol .leftParen, ⟨46, 47⟩⟩, ⟨.identifier "e", ⟨47, 48⟩⟩,
      ⟨.symbol .rightParen, ⟨48, 49⟩⟩, ⟨.symbol .leftBrace, ⟨50, 51⟩⟩,
      ⟨.symbol .rightBrace, ⟨52, 53⟩⟩, ⟨.identifier "println", ⟨54, 61⟩⟩,
      ⟨.symbol .leftParen, ⟨61, 62⟩⟩, ⟨.symbol .rightParen, ⟨62, 63⟩⟩,
      ⟨.symbol .semicolon, ⟨63, 64⟩⟩] (.endAt 64)

/-- The `exit` goes through both `try` statements, and the line after them is not printed. -/
theorem runTokens_exitInTries :
    let now : Progress Unit := ⟨.prelude, .unlimited, ()⟩
    let moment := ((Pass.machine now).enterBody .empty).enterBody .empty
    (Session.pass 9).runTokens 2 exitInTries now = (.ok (.exit 0), Pass.resume now moment) := by
  intro now moment
  obtain ⟨s, rest, hparse, hs⟩ : ∃ s rest, exitInTries.parseNext = (.ok s, rest) ∧
      s.erase = .tryCatch () [.tryCatch ()
        [.expr () (.array () [.call () (.var () "exit") []])] "e" []] "e" [] :=
    ⟨_, _, rfl, rfl⟩
  have hcomes : (Session.pass 9).ComesTo 2 exitInTries now s.erase now := .here rfl hparse
  rw [hs] at hcomes
  have hexit : Visit.Halts ⟨4, .call (.function ⟨1⟩) none [], moment⟩ (.exit 0) moment := rfl
  have hreaches : Visit.Reaches
      ⟨9, .stmt (.tryCatch () [.tryCatch ()
        [.expr () (.array () [.call () (.var () "exit") []])] "e" []] "e" []), Pass.machine now⟩
      ⟨4, .call (.function ⟨1⟩) none [], moment⟩ :=
    .head (.inr .body) <| .head (.inl .stmts) <| .head (.inl .stmtsHead) <|
      .head (.inr .body) <| .head (.inl .stmts) <| .head (.inl .stmtsHead) <|
      .head (.inl .expr) <| .head (.inl .array) <| .head (.inl .exprsHead) <|
      .head (.inl (.call rfl rfl)) .refl
  exact ((stop_comes_out_or_is_handled hreaches hexit).2.2 0 rfl).1 (Session.pass 9) 2 exitInTries
    now now rfl rfl hcomes

end Script
