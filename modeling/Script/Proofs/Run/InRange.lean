import Script.Proofs.Eval.Raising
import Script.Proofs.Number.Whole
import Script.Proofs.Run.Conversation
import Script.Proofs.Run.Halting
import Script.Proofs.Run.Origin

/-!
# No access is out of range

A pass that starts from a new namespace never looks at a place where there is nothing.  Tokens span
characters of the source, the parser looks at tokens of the source, native functions have the
arguments that they need, and an index that passes its check finds an item.

Nor does it come to a case that is there for completeness only.  The parser calls no numeral
malformed.  It makes an assignment only to what it has accepted as a place, and a declaration only
with a name, and there are no trees for any others; all code that is run is code that it has made.

## Main definitions

* `Pass.InRange`: the law.

## Main results

* `checkIndex_eq_ok_iff`: the check of an index is exact.
* `Pass.Visits.not_faults`: no visit of a pass stops with a fault.
* `Pass.inRange_prelude`: the law holds of every pass from a new namespace.
-/

namespace Script

open Eval Outcome

/-! ## Indices -/

/-- **The check of an index is exact**, as long as the length is one that a double can hold: an
index passes if it is equal to a number below the length, and it stands for that number. -/
theorem checkIndex_eq_ok_iff {x : Float} {length i : Nat} (hlength : length ≤ Nat.pow 2 53) :
    checkIndex x length = .ok i ↔ i < length ∧ (x == Float.ofNat i) = true := by
  have hwhole : checkIndex x length = .ok i ↔ i < length ∧ Number.toNat? x = some i := by
    unfold checkIndex
    cases Number.toNat? x with
    | none => simp
    | some n =>
      simp only [Option.some.injEq]
      by_cases hn : n < length
      · simp only [if_pos hn, Except.ok.injEq]
        exact ⟨fun heq => ⟨heq ▸ hn, heq⟩, And.right⟩
      · simp only [if_neg hn, reduceCtorEq, false_iff]
        rintro ⟨hi, rfl⟩
        exact hn hi
  rw [hwhole]
  refine and_congr_right fun hi => ?_
  have hexact : Number.toNat? (Float.ofNat i) = some i :=
    Number.toNat?_ofScientific (Nat.lt_of_lt_of_le hi hlength)
  exact ⟨fun hx => Number.beq_of_toNat? hx hexact, fun hx => Number.toNat?_of_beq hx hexact⟩

/-! ## Assignments -/

/-- What stands in the beginning of a text stands there also if the text goes on. -/
theorem getElem?_toList_append {s : String} {i : Nat} {c : Char} (h : s.toList[i]? = some c)
    (t : String) : (s ++ t).toList[i]? = some c := by
  rw [String.toList_append, List.getElem?_append_left (List.getElem?_eq_some_iff.mp h).1]
  exact h

/-- No error of an assignment is that the place has the wrong form: the third character tells them
apart. -/
theorem EvalError.message_ne {e : EvalError} (h : e.concernsPlace = true) :
    e.message ≠ ParseError.Cause.assignmentTarget.message := by
  have hthird : ∃ c, c ≠ 'v' ∧ e.message.toList[2]? = some c := by
    cases e with
    | undefinedVariable name =>
      exact ⟨'d', by decide, getElem?_toList_append (getElem?_toList_append (by decide) _) _⟩
    | noFields found name | notIndexable container key =>
      exact ⟨'n', by decide, getElem?_toList_append
        (getElem?_toList_append (getElem?_toList_append (by decide) _) _) _⟩
    | outOfBounds index length =>
      exact ⟨'d', by decide, getElem?_toList_append
        (getElem?_toList_append (getElem?_toList_append (by decide) _) _) _⟩
    | _ => cases h
  obtain ⟨c, hc, hmessage⟩ := hthird
  intro heq
  rw [heq] at hmessage
  have hform : ParseError.Cause.assignmentTarget.message.toList[2]? = some 'v' := by decide
  exact hc (Option.some.inj (hmessage.symm.trans hform))

/-! ## Faults -/

section Statements

variable {s : Stmt Unit} {m m' : Machine} {fuel : Nat}

/-- A statement that is completed leaves a store in which every value names an object. -/
theorem closed_of_evaluate {value : Value} (hm : m.store.Closed)
    (hs : s.evaluate fuel m = .ok value m') : m'.store.Closed := by
  have hsafe := safe_evaluate fuel s hm
  rw [hs] at hsafe
  cases hsafe with
  | ok hclosed _ _ => exact hclosed

/-- A statement stops with no fault. -/
theorem ne_fault_of_evaluate {stop : Stop} (hm : m.store.Closed)
    (hs : s.evaluate fuel m = .error stop m') (f : Fault) : stop ≠ .fault f := by
  rintro rfl
  have hsafe := safe_evaluate fuel s hm
  rw [hs] at hsafe
  cases hsafe with
  | error _ _ hstop => exact hstop

end Statements

namespace Pass

variable {ω : Type} {p : Pass ω} {source : String} {now now' : Progress ω} {w : Visit}
variable {code : List (Stmt Unit)}

/-- The observer leaves the store as the statement has left it. -/
theorem closed_of_shown {s : Stmt Unit} {value : Value} {m : Machine} (hnow : now.ns.store.Closed)
    (hs : s.evaluate p.fuel (machine now) = .ok value m)
    (hshown : p.observe value (resume now m) = (.ok (), now')) : now'.ns.store.Closed := by
  have hns : now'.ns = (resume now m).ns := by
    rw [← p.ns_observe value (resume now m), hshown]
  rw [hns]
  exact closed_of_evaluate (m := machine now) hnow hs

theorem Completes.closed (h : p.Completes code now now') (hnow : now.ns.store.Closed) :
    now'.ns.store.Closed :=
  h.induct_ns (I := fun ns => ns.store.Closed)
    (fun _ _ now _ _ hnow hrun => closed_of_evaluate (m := machine now) hnow hrun) hnow

/-- **No visit of a pass stops with a fault.** -/
theorem Visits.not_faults (h : p.Visits source now w) (hnow : now.ns.store.Closed) (f : Fault)
    (m : Machine) : ¬ w.Halts (.fault f) m := by
  intro hhalts
  obtain ⟨before, s, now', ⟨program, rest, -, -, hcompletes⟩, hreaches⟩ := h
  -- nothing handles a fault, so it would be one of the statement
  have hout := evaluate_of_halts (hreaches.halts (by simp) hhalts)
  exact ne_fault_of_evaluate (m := machine now') (hcompletes.closed hnow) hout f rfl

/-- Statements do not end in a fault. -/
theorem runStatements_ne_faulty {ending : Except Error Flow} {f : Fault}
    (hending : ending ≠ .error (.faulty f)) (hnow : now.ns.store.Closed) :
    (p.runStatements ending code now).1 ≠ .error (.faulty f) := by
  induction code generalizing now with
  | nil => exact hending
  | cons s rest ih =>
    cases hs : s.evaluate p.fuel (machine now) with
    | error stop m =>
      have hstop := ne_fault_of_evaluate (m := machine now) hnow hs f
      rw [runStatements_of_stop hs]
      cases stop with
      | fault g => simpa [halt] using hstop
      | raise | exit | outOfFuel => simp [halt, interrupt]
    | ok value m =>
      rcases hshown : p.observe value (resume now m) with ⟨e | u, now₁⟩
      · obtain ⟨cause, rfl⟩ := io_of_observe hshown
        rw [runStatements_of_refused hs hshown]
        simp
      · rw [runStatements_of_shown hs hshown]
        exact ih (closed_of_shown hnow hs hshown)

/-- **A pass does not end in a fault.** -/
theorem runSource_ne_faulty (hnow : now.ns.store.Closed) (f : Fault) :
    (p.runSource source now).1 ≠ .error (.faulty f) := by
  rw [runSource_eq_runStatements]
  cases readProgram source with
  | error e => simp [interrupt]
  | ok program =>
    refine runStatements_ne_faulty ?_ hnow
    cases program.failure <;> simp [ending, interrupt]

/-! ## The law -/

/-- A function declaration makes a function object that has its name. -/
theorem exists_execStmt_function (n : Nat) (a : Unit) (name : String) (params : List String)
    (body : List (Stmt Unit)) (m : Machine) :
    ∃ f m', execStmt (n + 1) (.function a name params body) m = .ok (.next (.function f)) m' ∧
      m'.store.function? f = some (.closure ⟨some name, params, body, m.scope⟩) := by
  refine ⟨⟨m.store.functions.size⟩, _, rfl, ?_⟩
  simp [Store.function?, Store.define]

/-- **No access of a pass is out of range, and no case is reached that is there for completeness
only.** -/
structure InRange (p : Pass ω) (source : String) (now : Progress ω) : Prop where
  /-- Every token that is made spans characters of the source, and these spell it. -/
  token : ∀ t, Lexer.Makes source t → t.span.start < t.span.stop ∧
    t.span.stop ≤ source.length ∧ Lexer.Spells (t.span.slice source.toList) t.lexeme
  /-- Wherever the parser stands, it stands at one of the places of the tokens. -/
  place : ∀ (s : TokenStream) tokens, s.Along source → tokenize source = .ok tokens →
    s.Placed tokens
  /-- A statement that is parsed, and one that cannot be parsed, lead to such a place. -/
  next : ∀ (s s' : TokenStream) r, s.Along source → s.parseNext = (r, s') → s'.Along source
  /-- No numeral is called malformed. -/
  numeral : ∀ (s s' : TokenStream) e, s.Along source → s.parseNext = (.error e, s') →
    e.cause ≠ .malformedNumeral
  /-- Native functions have the arguments that they need, an index that passes its check finds an
  item, and a function value has a function object. -/
  access : ∀ w, p.Visits source now w → ∀ f m, ¬ w.Halts (.fault f) m
  /-- The check of an index compares exactly. -/
  index : ∀ x length i, length ≤ Nat.pow 2 53 →
    (checkIndex x length = .ok i ↔ i < length ∧ (x == Float.ofNat i) = true)
  /-- A place that is assigned to stands in the source in front of an assignment mark, and the
  parser has accepted it.  A `Target` has one of the three forms that `Expr.toTarget?` accepts, so
  there is no other form that an assignment could come to.  If it raises a value, then it got the
  value from a part of the place, or from an error that is not about the form of the place. -/
  assignment : ∀ n value target m, p.Visits source now ⟨n, .place value target, m⟩ →
    Grammar.Assigned source target ∧ ∀ payload m',
      Visit.Halts ⟨n, .place value target, m⟩ (.raise payload) m' →
      (∃ u m'', Visit.Enters ⟨n, .place value target, m⟩ u ∧ u.Halts (.raise payload) m'') ∨
        ∃ e : EvalError, e.concernsPlace = true ∧ payload = .text e.message ∧
          e.message ≠ ParseError.Cause.assignmentTarget.message
  /-- A function declaration that is run has a name that the source spells behind the word for a
  function, where the parser asks for one.  There is no `Stmt.function` without a name, so the
  function object that the declaration makes has this one. -/
  declaration : ∀ n a name params body m,
    p.Visits source now ⟨n + 1, .stmt (.function a name params body), m⟩ →
    Grammar.Declared source name ∧ Lexer.MakesName source name ∧
      ∃ f m', execStmt (n + 1) (.function a name params body) m = .ok (.next (.function f)) m' ∧
        m'.store.function? f = some (.closure ⟨some name, params, body, m.scope⟩)
  /-- The pass does not end in a fault. -/
  result : ∀ f, (p.runSource source now).1 ≠ .error (.faulty f)

/-- **Every pass from a new namespace stays in range.** -/
theorem inRange_prelude (p : Pass ω) (source : String) (sink : Sink) (seen : ω) :
    p.InRange source ⟨.prelude, sink, seen⟩ := by
  have hclosed := Namespace.closed_prelude
  have hread := Namespace.holds_prelude (Heredity.read source).guarantee
  constructor
  case token => exact fun t ht => ht.within
  case place => exact fun s tokens hs htokens => hs.placed htokens
  case next => exact fun s s' r hs hparse => hs.parseNext hparse
  case numeral => exact fun s s' e hs hparse => hs.cause_ne hparse
  case access => exact fun w hw f m => hw.not_faults hclosed f m
  case index => exact fun x length i hlength => checkIndex_eq_ok_iff hlength
  case assignment =>
    intro n value target m hw
    refine ⟨hw.assigned hread, fun payload m' hhalts => ?_⟩
    refine (Visit.raises_of_place hhalts).imp_right ?_
    rintro ⟨e, he, rfl⟩
    exact ⟨e, he, rfl, e.message_ne he⟩
  case declaration =>
    intro n a name params body m hw
    have hdeclared := hw.declared hread
    exact ⟨hdeclared, hdeclared.makesName, exists_execStmt_function n a name params body m⟩
  case result => exact fun f => runSource_ne_faulty hclosed f

end Pass

end Script
