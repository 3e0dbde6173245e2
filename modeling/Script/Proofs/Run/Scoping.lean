import Script.Proofs.Eval.Chains
import Script.Proofs.Eval.Development
import Script.Proofs.Run.TwoPhase
import Script.Run.Batch

/-!
# Lexical scopes

Functions are called long after the blocks in which they were made have ended, and their bodies then
run in new scopes inside those old ones.  Still the scopes of a running program form a tree.  A new
scope is put inside a scope that there is, and nothing moves a scope later on.  So from every scope,
and from every scope that a function remembers, one gets outwards to the scope of the namespace, and
an assignment changes the binding that the name would be read from, and no other.

This holds at every moment: between two statements, and at the beginning and at the end of every
visit while a statement is running.

## Main definitions

* `Machine.Anchored`: a machine in a scope of its store, in which all chains end at one scope.
* `Namespace.Reachable`: the namespaces that running programs leads to.

## Main results

* `Store.Anchored.change`, `Store.Anchored.develops`: what one change keeps, and what a whole
  evaluation keeps.
* `Visit.Reaches.anchored`: the machines on the way.
* `Pass.reachable_runSource`: running a source leads to reachable namespaces.
* `Namespace.lexical_of_reachable`: what names and assignments mean at every moment.
-/

namespace Script

open Eval

/-! ## Stores -/

namespace Store

variable {σ τ : Store} {root here : ScopeId}

/-- **One change** keeps a store anchored, and makes no scope. -/
theorem Anchored.change (h : σ.Anchored root) (hhere : σ.HasScope here)
    (hchange : σ.Change here τ) : τ.Anchored root ∧ τ.scopes.size = σ.scopes.size := by
  have hsame : ∀ {υ : Store}, υ.scopes = σ.scopes → υ.functions = σ.functions →
      υ.Anchored root ∧ υ.scopes.size = σ.scopes.size := fun hscopes hfunctions =>
    ⟨h.of_outer?_eq (outer?_of_scopes_eq hscopes) hfunctions, congrArg Array.size hscopes⟩
  cases hchange with
  | newArray | newMap | modifyArray | modifyMap => exact hsame rfl rfl
  | newNative n =>
    refine ⟨h.newFunction fun c hc => ?_, rfl⟩
    cases hc
  | newClosure name params body =>
    refine ⟨h.newFunction fun c hc => ?_, rfl⟩
    cases hc
    exact hhere
  | define name value =>
    exact ⟨h.of_outer?_eq (fun s => outer?_define here s name value) rfl, by simp⟩
  | assign name value =>
    unfold Store.assign
    cases σ.resolve? here name with
    | none => exact hsame rfl rfl
    | some owner =>
      exact ⟨h.of_outer?_eq (fun s => outer?_define owner s name value) rfl, by simp⟩

theorem hasScope_newScope (σ : Store) (outer : Option ScopeId) (bindings : Dict Value) :
    (σ.newScope outer bindings).2.HasScope ⟨σ.scopes.size⟩ := by
  simp [HasScope, newScope]

/-- **A whole evaluation** keeps a store anchored, and its scopes are still there. -/
theorem Anchored.develops (hdevelops : σ.Develops here τ) (h : σ.Anchored root)
    (hhere : σ.HasScope here) : τ.Anchored root ∧ σ.scopes.size ≤ τ.scopes.size := by
  induction hdevelops with
  | refl => exact ⟨h, Nat.le_refl _⟩
  | change hchange =>
    obtain ⟨hτ, hsize⟩ := h.change hhere hchange
    exact ⟨hτ, Nat.le_of_eq hsize.symm⟩
  | trans _ _ ih ih' =>
    obtain ⟨hτ, hsize⟩ := ih h hhere
    obtain ⟨hυ, hsize'⟩ := ih' hτ (Nat.lt_of_lt_of_le hhere hsize)
    exact ⟨hυ, Nat.le_trans hsize hsize'⟩
  | @body here σ τ bindings _ ih =>
    have hnew := Frame.newScope σ (some here) bindings
    obtain ⟨hτ, hsize⟩ := ih (h.newScope hhere bindings) (hasScope_newScope σ _ _)
    exact ⟨hτ, Nat.le_trans hnew.size hsize⟩
  | @call here σ τ f c hf bindings _ ih =>
    -- the scope that the function remembers is one of the store, wherever the call is made
    have hnew := Frame.newScope σ (some c.scope) bindings
    obtain ⟨hτ, hsize⟩ := ih (h.newScope (h.captured hf) bindings) (hasScope_newScope σ _ _)
    exact ⟨hτ, Nat.le_trans hnew.size hsize⟩

end Store

/-! ## Visits -/

/-- A machine in a scope of its store, in which all chains end at `root`. -/
structure Machine.Anchored (root : ScopeId) (m : Machine) : Prop where
  store : m.store.Anchored root
  scope : m.store.HasScope m.scope

namespace Machine.Anchored

variable {α : Type} {root : ScopeId} {m : Machine}

theorem after (h : m.Anchored root) {x : Eval α} (hx : Developing x) :
    (after x m).Anchored root := by
  obtain ⟨hscope, hdevelops⟩ := hx m
  obtain ⟨hstore, hsize⟩ := Store.Anchored.develops hdevelops h.store h.scope
  refine ⟨hstore, ?_⟩
  rw [hscope]
  exact Nat.lt_of_lt_of_le h.scope hsize

theorem enterBody (h : m.Anchored root) (bindings : Dict Value) :
    (m.enterBody bindings).Anchored root :=
  ⟨h.store.newScope h.scope bindings, m.store.hasScope_newScope _ _⟩

theorem enterCall (h : m.Anchored root) {f : FunctionId} {c : Closure}
    (hf : m.store.function? f = some (.closure c)) (args : List Value) :
    (m.enterCall c args).Anchored root :=
  ⟨h.store.newScope (h.store.captured hf) _, m.store.hasScope_newScope _ _⟩

section Outcomes

variable {n : Nat} {t : Task} {k : Machine}

theorem of_ok (h : m.Anchored root) {a : t.Result} (hrun : t.run n m = .ok a k) :
    k.Anchored root := by
  have hafter := h.after (developing_run n t)
  rwa [after_of_ok hrun] at hafter

theorem of_error (h : m.Anchored root) {s : Stop} (hrun : t.run n m = .error s k) :
    k.Anchored root := by
  have hafter := h.after (developing_run n t)
  rwa [after_of_error hrun] at hafter

end Outcomes

end Machine.Anchored

namespace Visit

variable {root : ScopeId} {v w : Visit}

/-- A visit begins where the visits before it have left the store, or in a new scope. -/
theorem Enters.anchored (h : Enters v w) (hv : v.machine.Anchored root) :
    w.machine.Anchored root := by
  cases h with
  | left | operand | assigned | callee | array | map | indexed | owner | exprsHead | entriesHead
  | calleeOwner | placeOwner | placeIndexed | stmtsHead | init | expr | condition | iterated
  | thrown | returned | roundTest | itemBody | calleeValue | block | loop => exact hv
  | stmts => exact hv.enterBody _
  | code hf => exact hv.enterCall hf _
  | right h₁ | place h₁ | index h₁ | exprsTail h₁ | entriesTail h₁ | placeIndex h₁ | yes h₁ | no h₁
  | items h₁ | roundBody h₁ => exact hv.of_ok (t := .expr _) h₁
  | args hcallee => exact hv.of_ok (t := .callee _) hcallee
  | call hcallee hargs =>
    have hfirst := hv.of_ok (t := .callee _) hcallee
    exact hfirst.of_ok (t := .exprs _) hargs
  | stmtsTail hhead => exact hv.of_ok (t := .stmt _) hhead
  | roundNext htest _ hbody =>
    have hfirst := hv.of_ok (t := .expr _) htest
    exact hfirst.of_ok (t := .body _ _) hbody
  | itemNext hbody => exact hv.of_ok (t := .body _ _) hbody
  | handler hbody => exact hv.of_error (t := .body _ _) hbody

/-- **The machines on the way of a visit.** -/
theorem Reaches.anchored (h : Reaches v w) (hv : v.machine.Anchored root) :
    w.machine.Anchored root := by
  induction h with
  | refl => exact hv
  | tail _ hstep ih =>
    rcases hstep with henters | htries
    · exact henters.anchored ih
    · cases htries
      exact ih

end Visit

/-! ## Namespaces -/

namespace Namespace

variable {ns : Namespace}

/-- The machine at the start of a statement in a namespace. -/
def machine (ns : Namespace) (sink : Sink) : Machine := ⟨ns.store, sink, ns.root, 0⟩

/-- **The namespaces that running programs leads to.**  A program starts from a new namespace, into
which values and native functions may be put, and runs one statement after the other, however each
of them ends. -/
inductive Reachable : Namespace → Prop where
  | empty : Reachable .empty
  | define {ns : Namespace} (name : String) (value : Value) (h : Reachable ns) :
      Reachable (ns.define name value)
  | installNative {ns : Namespace} (n : Native) (h : Reachable ns) :
      Reachable (ns.installNative n)
  | evaluate {ns : Namespace} (fuel : Nat) (s : Stmt Unit) (sink : Sink) (h : Reachable ns) :
      Reachable { ns with store := (after (s.evaluate fuel) (ns.machine sink)).store }

theorem reachable_prelude : prelude.Reachable := (Reachable.empty.installNative _).installNative _

theorem anchored_empty : empty.store.Anchored empty.root := by
  refine ⟨rfl, ?_, ?_⟩
  · rintro ⟨i⟩ hs hne
    have hi : i < 1 := hs
    have hzero : i = 0 := by omega
    exact absurd (congrArg ScopeId.mk hzero) hne
  · intro f c hf
    cases hf

/-- All chains of a reachable namespace end at its root. -/
theorem Reachable.anchored (h : ns.Reachable) : ns.store.Anchored ns.root := by
  induction h with
  | empty => exact anchored_empty
  | define name value _ ih =>
    exact ih.of_outer?_eq (fun s => Store.outer?_define _ s name value) rfl
  | @installNative ns n _ ih =>
    have hnative : (ns.store.newFunction (.native n)).2.Anchored ns.root := by
      refine ih.newFunction fun c hc => ?_
      cases hc
    exact hnative.of_outer?_eq (fun s => Store.outer?_define _ s _ _) rfl
  | @evaluate ns fuel s sink _ ih =>
    have hmachine : (ns.machine sink).Anchored ns.root := ⟨ih, ih.hasScope_root⟩
    exact (hmachine.after (developing_evaluate fuel s)).store

end Namespace

/-! ## Passes -/

namespace Pass

variable {ω : Type}

theorem reachable_runStatements (p : Pass ω) (ending : Except Error Flow)
    (body : List (Stmt Unit)) {now : Progress ω} (h : now.ns.Reachable) :
    (p.runStatements ending body now).2.ns.Reachable := by
  induction body generalizing now with
  | nil => exact h
  | cons s body ih =>
    have hstep : (resume now (after (s.evaluate p.fuel) (machine now))).ns.Reachable :=
      h.evaluate p.fuel s now.sink
    unfold runStatements
    cases hs : s.evaluate p.fuel (machine now) with
    | error stop m =>
      rw [after_of_error hs] at hstep
      exact hstep
    | ok value m =>
      rw [after_of_ok hs] at hstep
      have hshown : (p.observe value (resume now m)).2.ns.Reachable := by
        rw [p.ns_observe]
        exact hstep
      rcases hseen : p.observe value (resume now m) with ⟨_ | _, now'⟩
      · rw [hseen] at hshown
        simp only [hseen]
        exact hshown
      · rw [hseen] at hshown
        simp only [hseen]
        exact ih hshown

/-- **Running a source leads to reachable namespaces**, however the run ends. -/
theorem reachable_runSource (p : Pass ω) (source : String) {now : Progress ω}
    (h : now.ns.Reachable) : (p.runSource source now).2.ns.Reachable := by
  rw [runSource_eq_runStatements]
  cases readProgram source with
  | error e => exact h
  | ok program => exact p.reachable_runStatements _ program.code h

end Pass

/-! ## Every moment -/

/-- **Lexical scopes.**  In a namespace that running programs leads to, and at every moment while a
further statement is run there, all chains end at the root, and an assignment changes the binding
that the name would be read from, and no other. -/
theorem Namespace.lexical_of_reachable {ns : Namespace} (h : ns.Reachable) :
    ns.store.Lexical ns.root ∧
      ∀ fuel s sink w, Visit.Reaches ⟨fuel, .stmt s, ns.machine sink⟩ w →
        w.machine.store.HasScope w.machine.scope ∧ w.machine.store.Lexical ns.root ∧
          (after (w.task.run w.fuel) w.machine).store.Lexical ns.root := by
  refine ⟨h.anchored.lexical, ?_⟩
  intro fuel s sink w hreaches
  have hmachine : (ns.machine sink).Anchored ns.root := ⟨h.anchored, h.anchored.hasScope_root⟩
  have hw := hreaches.anchored hmachine
  exact ⟨hw.scope, hw.store.lexical, (hw.after (developing_run w.fuel w.task)).store.lexical⟩

/-- A function changes a variable of a call that has ended.  Its body has run in a scope inside the
scope of that call. -/
theorem Namespace.lexical_of_reachable_later_change :
    let source := "function make() \x7b let v = true; " ++
      "return function() \x7b v = false; \x7d; \x7d let change = make(); change();"
    let ns := (Batch.start.runSource 12 source).2.ns
    ns.Reachable ∧ ns.store.outer? ⟨2⟩ = some (some ⟨1⟩) ∧
      ns.store.lookup ⟨2⟩ "v" = some (.boolean false) ∧ ns.store.Lexical ns.root := by
  intro source ns
  have hreachable : ns.Reachable :=
    (Batch.pass 12).reachable_runSource source Namespace.reachable_prelude
  exact ⟨hreachable, by decide +kernel, by decide +kernel, (lexical_of_reachable hreachable).1⟩

end Script
