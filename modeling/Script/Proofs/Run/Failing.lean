import Script.Proofs.Eval.Lockstep
import Script.Proofs.Run.Names
import Script.Run.Batch

/-!
# What a failing statement leaves behind

A statement that fails has been run up to the point where it failed, and nothing of what it did is
taken back.  It makes no definition in the namespace: that would have been the last thing it did.
The bindings of the namespace, and the contents of all arrays and maps that were there before, are
as they were before the statement, unless an assignment, or a `push` or `pop`, has changed one of
them on the way.

The statement is followed in lock step with itself, up to the first such change.

## Main definitions

* `Store.Keeps`: the objects of one store are in another one, with the same contents.
* `Visit.Alters`: an assignment or a method call in the course of which an old object changes.
* `Namespace.Unchanged`: a namespace to which nothing has happened.

## Main results

* `keeps_or_alters`: a statement that stops leaves old objects alone, unless it alters one.
* `Pass.failed_statement`: what a pass leaves behind that ends with a failing statement.
-/

namespace Script

open Eval Outcome

/-! ## Objects that stay as they are -/

/-- The items of `xs` are the first ones of `ys`. -/
def Begins {α : Type} (xs ys : Array α) : Prop := ∀ i, i < xs.size → ys[i]? = xs[i]?

namespace Begins

variable {α : Type} {xs ys : Array α}

theorem refl (xs : Array α) : Begins xs xs := fun _ _ => rfl

theorem size_le (h : Begins xs ys) : xs.size ≤ ys.size := by
  rcases Nat.lt_or_ge ys.size xs.size with hlt | hle
  · have hlast := h ys.size hlt
    simp [hlt] at hlast
  · exact hle

theorem push (h : Begins xs ys) (y : α) : Begins xs (ys.push y) := by
  intro i hi
  have hne : i ≠ ys.size := Nat.ne_of_lt (Nat.lt_of_lt_of_le hi h.size_le)
  rw [Array.getElem?_push, if_neg hne, h i hi]

theorem modify (h : Begins xs ys) {i : Nat} (hi : xs.size ≤ i) (f : α → α) :
    Begins xs (ys.modify i f) := by
  intro j hj
  have hne : i ≠ j := Nat.ne_of_gt (Nat.lt_of_lt_of_le hj hi)
  rw [Array.getElem?_modify, if_neg hne, h j hj]

end Begins

/-- The objects of `σ` are in `τ`, and they have the same contents. -/
structure Store.Keeps (σ τ : Store) : Prop where
  arrays : Begins σ.arrays τ.arrays
  maps : Begins σ.maps τ.maps
  functions : Begins σ.functions τ.functions
  scopes : Begins σ.scopes τ.scopes

namespace Store.Keeps

variable {σ τ : Store}

theorem refl (σ : Store) : σ.Keeps σ := ⟨.refl _, .refl _, .refl _, .refl _⟩

/-- The bindings of a scope that was there are what they were. -/
theorem bindings_eq (h : σ.Keeps τ) {s : ScopeId} (hs : σ.HasScope s) :
    τ.bindings s = σ.bindings s := by
  unfold bindings scope?
  rw [h.scopes s.index hs]

end Store.Keeps

/-- The lock step of an evaluation with itself, as long as the objects of `σ` stay as they are. -/
def Store.keeping (σ : Store) : Lockstep where
  Stores τ scopes := scopes = τ.scopes ∧ σ.Keeps τ
  Sinks := Eq
  Own scope := σ.scopes.size ≤ scope.index
  Names _ := True
  Frozen := True
  size_eq h := congrArg Array.size h.1
  names_of_closure _ _ _ _ := trivial
  lookup_eq _ _ h _ := by rw [h.1, Store.withScopes_self]
  own_newScope h := h.2.scopes.size_le
  stores_newArray items h := ⟨h.1, { h.2 with arrays := h.2.arrays.push items }⟩
  stores_newMap entries h := ⟨h.1, { h.2 with maps := h.2.maps.push entries }⟩
  stores_newFunction f h _ := ⟨h.1, { h.2 with functions := h.2.functions.push f }⟩
  stores_newScope outer bindings h :=
    ⟨congrArg (Array.push · ⟨outer, bindings⟩) h.1,
      { h.2 with scopes := h.2.scopes.push ⟨outer, bindings⟩ }⟩
  stores_define value h hown _ := by
    rw [h.1, Store.withScopes_self]
    exact ⟨rfl, { h.2 with scopes := h.2.scopes.modify hown _ }⟩
  stores_assign _ _ hfrozen := absurd trivial hfrozen
  stores_modifyArray _ _ hfrozen := absurd trivial hfrozen
  stores_modifyMap _ _ hfrozen := absurd trivial hfrozen
  sinks_writeLine := @Sink.eq_writeLine

theorem joins_keeping {σ : Store} {here : ScopeId} {m m' : Machine} :
    σ.keeping.Joins here m m' ↔ m.scope = here ∧ m' = m ∧ σ.Keeps m.store := by
  constructor
  · rintro ⟨⟨rfl, hkeeps⟩, rfl⟩
    exact ⟨rfl, rfl, hkeeps⟩
  · rintro ⟨rfl, rfl, hkeeps⟩
    exact .intro (S := σ.keeping) (σ := m'.store) ⟨rfl, hkeeps⟩ rfl

/-! ## Changes to old objects -/

namespace Visit

variable {σ : Store} {v w : Visit} {here : ScopeId} {n : Nat} {t : Task} {m k : Machine}

/-- An assignment or a call of a method in the course of which an object of `σ` changes. -/
structure Alters (σ : Store) (w : Visit) : Prop where
  writes : w.Writes
  kept : σ.Keeps w.machine.store
  changed : ¬ σ.Keeps (after (w.task.run w.fuel) w.machine).store

theorem related_of_keeps (hscope : m.scope = here) (h : σ.Keeps (after (t.run n) m).store) :
    Related Eq (σ.keeping.Joins here) Eq (t.run n m) (t.run n m) := by
  have hafter : (after (t.run n) m).scope = here :=
    ((t.keeps_run n m.depth m rfl (Guarantee.holds_frame _)).1.scope).trans hscope
  have hjoins := joins_keeping.mpr ⟨hafter, rfl, h⟩
  cases hrun : t.run n m with
  | ok a k =>
    rw [after_of_ok hrun] at hjoins
    exact .ok rfl hjoins
  | error s k =>
    rw [after_of_error hrun] at hjoins
    exact .error rfl hjoins

/-- An evaluation parts from itself only where it changes an object of `σ`. -/
theorem alters_of_splits (h : σ.keeping.Splits (v, w)) : v.Alters σ := by
  cases h with
  | line hjoins _ _ hline =>
    obtain ⟨-, rfl, -⟩ := joins_keeping.mp hjoins
    exact absurd rfl hline
  | change _ hwrites hjoins hbreaks =>
    obtain ⟨hscope, rfl, hkeeps⟩ := joins_keeping.mp hjoins
    exact ⟨hwrites, hkeeps, fun hafter => hbreaks (related_of_keeps hscope hafter)⟩

theorem alters_of_parts (h : σ.keeping.Parts (v, v)) : ∃ w, Reaches v w ∧ w.Alters σ := by
  obtain ⟨⟨w, w'⟩, htogether, hsplits⟩ := h
  exact ⟨w, htogether.fst, alters_of_splits hsplits⟩

/-- An evaluation that stops has kept the objects of `σ`, or altered one on the way. -/
theorem keeps_or_alters_of_goes {α : Type} {stop : Stop}
    (h : σ.keeping.Goes (α := α) (v, v) here (.error stop k) (.error stop k)) :
    σ.Keeps k.store ∨ ∃ w, Reaches v w ∧ w.Alters σ := by
  rcases h with hrelated | hparts
  · cases hrelated with
    | error _ hstate =>
      obtain ⟨-, -, hkeeps⟩ := joins_keeping.mp hstate
      exact .inl hkeeps
  · exact .inr (alters_of_parts hparts)

end Visit

/-- A declaration that stops has stopped in the expression for its value, before it defined
anything. -/
theorem evalExpr_of_declared {s : Stmt Unit} {n : Nat} {m m' : Machine} {stop : Stop}
    (hdeclared : s.declared?.isSome = true) (h : s.evaluate n m = .error stop m') :
    m' = m ∨ ∃ k e, Visit.Enters ⟨n, .stmt s, m⟩ ⟨k, .expr e, m⟩ ∧
      evalExpr k e m = .error stop m' := by
  cases n with
  | zero =>
    cases h
    exact .inl rfl
  | succ n =>
    cases s with
    | letVar a name init =>
      cases init with
      | none => cases h
      | some e =>
        refine .inr ⟨n, e, .init, ?_⟩
        cases he : evalExpr n e m with
        | error stop' k =>
          have hstmt : execStmt (n + 1) (.letVar a name (some e)) m = .error stop' k :=
            bind_of_error he
          rw [Stmt.evaluate, bind_of_error hstmt] at h
          exact h
        | ok v k =>
          have hstmt : execStmt (n + 1) (.letVar a name (some e)) m =
              .ok (.next v) { k with store := k.store.define k.scope name v } := bind_of_ok he
          rw [Stmt.evaluate, bind_of_ok hstmt] at h
          cases h
    | function => cases h
    | expr | block | ifElse | whileLoop | forEach | tryCatch | throw | ret | brk | cont =>
      cases hdeclared

/-- **A statement that stops leaves old objects alone**, unless it alters one on the way. -/
theorem keeps_or_alters {s : Stmt Unit} {n : Nat} {m m' : Machine} {stop : Stop}
    (h : s.evaluate n m = .error stop m') :
    m.store.Keeps m'.store ∨ ∃ w, Visit.Reaches ⟨n, .stmt s, m⟩ w ∧ w.Alters m.store := by
  have hjoins : m.store.keeping.Joins m.scope m m :=
    joins_keeping.mpr ⟨rfl, rfl, .refl m.store⟩
  by_cases hdeclared : s.declared?.isSome = true
  -- the definition is not made in a scope of the statement, but it is not come to either
  · rcases evalExpr_of_declared hdeclared h with rfl | ⟨k, e, henters, he⟩
    · exact .inl (.refl _)
    · have hgoes := m.store.keeping.follows k (.expr e) (.of_quiet (fun _ _ => trivial) rfl) hjoins
      have he : (Task.expr e).run k m = .error stop m' := he
      rw [he] at hgoes
      rcases Visit.keeps_or_alters_of_goes hgoes with hkeeps | ⟨w, hw, halters⟩
      · exact .inl hkeeps
      · exact .inr ⟨w, .head (.inl henters) hw, halters⟩
  · have hgoes := m.store.keeping.goes_evaluate n (s := s) (fun _ _ => trivial)
      (fun hsome => absurd hsome hdeclared) hjoins
    rw [h] at hgoes
    exact Visit.keeps_or_alters_of_goes hgoes

/-! ## Passes -/

/-- The namespace `ns'` is `ns` after nothing has happened to it: it has the same bindings, and all
arrays and maps have the same contents. -/
structure Namespace.Unchanged (ns ns' : Namespace) : Prop where
  bindings : ns'.bindings = ns.bindings
  objects : ns.store.Keeps ns'.store

namespace Pass

variable {ω : Type} {p : Pass ω} {source : String} {now now' after : Progress ω}
variable {code before : List (Stmt Unit)} {payload : Value}

theorem Completes.rooted (h : p.Completes before now now') (hrooted : now.ns.Rooted) :
    now'.ns.Rooted :=
  h.induct_ns (fun _ _ _ _ _ hrooted hs => (grows_of_ok hrooted hs).rooted) hrooted

theorem raise_of_halt {stop : Stop} (h : p.halt stop = .error (p.interrupt (.eval payload))) :
    stop = .raise payload := by
  cases stop <;> cases h
  rfl

/-- Statements that end with an uncaught value have come to the one that raised it. -/
theorem exists_failed {ending : Except Error Flow}
    (hending : ending ≠ .error (p.interrupt (.eval payload)))
    (h : p.runStatements ending code now = (.error (p.interrupt (.eval payload)), after)) :
    ∃ before s rest now' m, code = before ++ s :: rest ∧ p.Completes before now now' ∧
      s.evaluate p.fuel (machine now') = .error (.raise payload) m ∧ after = resume now' m := by
  induction code generalizing now with
  | nil => exact absurd (congrArg Prod.fst h) hending
  | cons s code ih =>
    cases hs : s.evaluate p.fuel (machine now) with
    | error stop m =>
      rw [runStatements_of_stop hs] at h
      obtain ⟨hhalt, rfl⟩ := Prod.mk.inj h
      obtain rfl := raise_of_halt hhalt
      exact ⟨[], s, code, now, m, rfl, .nil, hs, rfl⟩
    | ok value m =>
      rcases hshown : p.observe value (resume now m) with ⟨e | _, now₁⟩
      -- an observer that fails is no failure of the script
      · rw [runStatements_of_refused hs hshown] at h
        obtain ⟨cause, rfl⟩ := io_of_observe hshown
        cases h
      · rw [runStatements_of_shown hs hshown] at h
        obtain ⟨before, t, rest, now', m', rfl, hbefore, ht, hafter⟩ := ih h
        exact ⟨s :: before, t, rest, now', m', rfl, .cons hs hshown hbefore, ht, hafter⟩

/-- A pass that ends with an uncaught value has come to the statement that raised it. -/
theorem starts_failed
    (h : p.runSource source now = (.error (p.interrupt (.eval payload)), after)) :
    ∃ before s now' m, p.Starts source now before s now' ∧
      s.evaluate p.fuel (machine now') = .error (.raise payload) m ∧ after = resume now' m := by
  rw [runSource_eq_runStatements] at h
  cases hprogram : readProgram source with
  | error e =>
    rw [hprogram] at h
    cases h
  | ok program =>
    rw [hprogram] at h
    have hending : p.ending program.failure ≠ .error (p.interrupt (.eval payload)) := by
      cases program.failure <;> simp [ending, interrupt]
    obtain ⟨before, s, rest, now', m, hcode, hbefore, hs, hafter⟩ := exists_failed hending h
    exact ⟨before, s, now', m, ⟨program, rest, hprogram, hcode, hbefore⟩, hs, hafter⟩

/-- **What a failing statement leaves behind.**  Let a pass end with an uncaught value.  It was
raised by the statement `s`, to which the pass came when it stood at `now'`, all statements before
it completed.

* The namespace has the names that it had at `now'`, in their order: the statement has made no
  definition.
* The bindings of the namespace and the contents of all arrays and maps are what they were at
  `now'`, unless an assignment, or a call of `push` or `pop`, has changed an old object before the
  value was raised. -/
theorem failed_statement (hrooted : now.ns.Rooted)
    (h : p.runSource source now = (.error (p.interrupt (.eval payload)), after)) :
    ∃ before s now', p.Starts source now before s now' ∧
      (∃ m, s.evaluate p.fuel (machine now') = .error (.raise payload) m ∧
        after = resume now' m) ∧
      after.ns.names = now'.ns.names ∧
      (now'.ns.Unchanged after.ns ∨
        ∃ w, Visit.Reaches ⟨p.fuel, .stmt s, machine now'⟩ w ∧ w.Alters now'.ns.store) := by
  obtain ⟨before, s, now', m, hstarts, hs, rfl⟩ := starts_failed h
  have hrooted' : now'.ns.Rooted := by
    obtain ⟨-, -, -, -, hbefore⟩ := hstarts
    exact hbefore.rooted hrooted
  refine ⟨before, s, now', hstarts, ⟨m, hs, rfl⟩, (grows_of_error hrooted' hs).names, ?_⟩
  rcases keeps_or_alters hs with hkeeps | halters
  · exact .inl ⟨hkeeps.bindings_eq hrooted', hkeeps⟩
  · exact .inr halters

/-! ## A statement that fails late -/

/-- A block that assigns to a variable outside of it, and then fails. -/
def lateFailure : Stmt Unit :=
  .block () [.expr () (.assign () (.var () "x") (.boolean () false)), .throw () (.text () "late")]

/-- The namespace before and after the block, in a batch run. -/
theorem starts_lateFailure :
    ∃ now' m, (Batch.pass 9).Starts "let x = true; \x7b x = false; throw 'late'; \x7d"
        ⟨.prelude, .unlimited, ()⟩ [.letVar () "x" (some (.boolean () true))] lateFailure now' ∧
      lateFailure.evaluate 9 (machine now') = .error (.raise (.text "late")) m ∧
      now'.ns.get? "x" = some (.boolean true) ∧
      (resume now' m).ns.get? "x" = some (.boolean false) := by
  have htokens : TokenStream.ofSource "let x = true; \x7b x = false; throw 'late'; \x7d" =
      .ok (.ofTokens [⟨.keyword .letWord, ⟨0, 3⟩⟩, ⟨.identifier "x", ⟨4, 5⟩⟩,
        ⟨.symbol .assign, ⟨6, 7⟩⟩, ⟨.keyword .trueWord, ⟨8, 12⟩⟩, ⟨.symbol .semicolon, ⟨12, 13⟩⟩,
        ⟨.symbol .leftBrace, ⟨14, 15⟩⟩, ⟨.identifier "x", ⟨16, 17⟩⟩, ⟨.symbol .assign, ⟨18, 19⟩⟩,
        ⟨.keyword .falseWord, ⟨20, 25⟩⟩, ⟨.symbol .semicolon, ⟨25, 26⟩⟩,
        ⟨.keyword .throwWord, ⟨27, 32⟩⟩, ⟨.quoted "late", ⟨33, 39⟩⟩,
        ⟨.symbol .semicolon, ⟨39, 40⟩⟩, ⟨.symbol .rightBrace, ⟨41, 42⟩⟩] (.endAt 42)) := by rfl
  exact ⟨_, _, starts_of_parseNext htokens rfl rfl rfl rfl (.cons rfl rfl .nil), rfl,
    by decide +kernel, by decide +kernel⟩

/-- **A failing statement may leave effects behind.**  The block has failed, and the namespace is
not what it was before the block: `x` was `true`, and is `false`. -/
theorem failed_statement_changes_namespace :
    ∃ now' after, (Batch.pass 9).Starts "let x = true; \x7b x = false; throw 'late'; \x7d"
        ⟨.prelude, .unlimited, ()⟩ [.letVar () "x" (some (.boolean () true))] lateFailure now' ∧
      (Batch.pass 9).runSource "let x = true; \x7b x = false; throw 'late'; \x7d"
        ⟨.prelude, .unlimited, ()⟩ =
          (.error ((Batch.pass 9).interrupt (.eval (.text "late"))), after) ∧
      now'.ns.get? "x" = some (.boolean true) ∧ after.ns.get? "x" = some (.boolean false) ∧
      ¬ now'.ns.Unchanged after.ns := by
  obtain ⟨now', m, hstarts, hs, hbefore, hafter⟩ := starts_lateFailure
  refine ⟨now', resume now' m, hstarts, hstarts.runSource_of_stop hs, hbefore, hafter, ?_⟩
  intro hunchanged
  unfold Namespace.get? at hbefore hafter
  rw [hunchanged.bindings, hbefore] at hafter
  cases hafter

/-- The block makes no definition, and its assignment is what has changed the namespace. -/
theorem failed_statement_late :
    Namespace.prelude.Rooted ∧ ∃ after,
      (Batch.pass 9).runSource "let x = true; \x7b x = false; throw 'late'; \x7d"
        ⟨.prelude, .unlimited, ()⟩ =
          (.error ((Batch.pass 9).interrupt (.eval (.text "late"))), after) ∧
      ∃ before s now', (Batch.pass 9).Starts "let x = true; \x7b x = false; throw 'late'; \x7d"
          ⟨.prelude, .unlimited, ()⟩ before s now' ∧
        (∃ m, s.evaluate 9 (machine now') = .error (.raise (.text "late")) m ∧
          after = resume now' m) ∧
        after.ns.names = now'.ns.names ∧
        (now'.ns.Unchanged after.ns ∨
          ∃ w, Visit.Reaches ⟨9, .stmt s, machine now'⟩ w ∧ w.Alters now'.ns.store) := by
  have hrooted : Namespace.prelude.Rooted := by decide +kernel
  obtain ⟨now', m, hstarts, hs, -⟩ := starts_lateFailure
  have hrun := hstarts.runSource_of_stop hs
  exact ⟨hrooted, resume now' m, hrun, failed_statement hrooted hrun⟩

end Pass

end Script
