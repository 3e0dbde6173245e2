import Script.Proofs.Eval.Lockstep
import Script.Proofs.Grammar.Naming
import Script.Proofs.Run.Names

/-!
# Definitions that have nothing to do with a program

A namespace is given one more name, which neither the source nor any function in the store mentions.
Then nothing that the source does changes: every lookup and every assignment finds what it found
before, wherever it starts and whatever scopes are in between, and every definition is made where it
was made before.

The two runs are followed in lock step.  Their stores have the same arrays, maps and functions, and
the same scopes but for the one of the namespace, which has one binding more in the second run.

## Main definitions

* `Dict.Besides`: a dictionary with one entry more.
* `Store.Besides`: scopes of which one has a binding more.
* `Observer.IgnoresScopes`: the observers that look at no scope.
* `Pass.Unnoticed`: two runs that do not differ but for a binding.

## Main results

* `Store.Besides.lookup_eq`, `Store.Besides.assign`: names other than the new one mean the same.
* `Pass.unrelated_definition`: a definition that nothing mentions is not noticed.
-/

namespace Script

open Eval Outcome

/-! ## One entry more -/

/-- The dictionary `e` has the entries of `d` in their order, and an entry for `key` somewhere among
them. -/
structure Dict.Besides {α : Type} (d : Dict α) (key : String) (value : α) (e : Dict α) : Prop where
  get?_eq : ∀ other, other ≠ key → e.get? other = d.get? other
  get?_self : e.get? key = some value
  keys_eq : e.keys.filter (· ≠ key) = d.keys

namespace Dict.Besides

variable {α : Type} {d e : Dict α} {key : String} {value : α}

theorem insert_self (h : key ∉ d.keys) (value : α) : d.Besides key value (d.insert key value) := by
  refine ⟨fun other hother => d.get?_insert_of_ne value hother, d.get?_insert_self key value, ?_⟩
  have hkeep : d.keys.filter (· ≠ key) = d.keys := by
    rw [List.filter_eq_self]
    intro other hother
    have hne : other ≠ key := fun heq => h (heq ▸ hother)
    simpa using hne
  rw [keys_insert, if_neg h, List.filter_append, hkeep]
  simp

theorem contains_eq (h : d.Besides key value e) {other : String} (hother : other ≠ key) :
    e.contains other = d.contains other := by
  rw [contains, contains, h.get?_eq other hother]

/-- A write to another key. -/
theorem insert (h : d.Besides key value e) {other : String} (hother : other ≠ key) (new : α) :
    (d.insert other new).Besides key value (e.insert other new) := by
  refine ⟨fun k hk => ?_, ?_, ?_⟩
  · rw [get?_insert, get?_insert, h.get?_eq k hk]
  · rw [get?_insert_of_ne e new hother.symm, h.get?_self]
  · have hmem : other ∈ e.keys ↔ other ∈ d.keys := by
      rw [← contains_iff, ← contains_iff, h.contains_eq hother]
    rw [keys_insert, keys_insert]
    by_cases hin : other ∈ d.keys
    · rw [if_pos hin, if_pos (hmem.mpr hin), h.keys_eq]
    · rw [if_neg hin, if_neg (fun hin' => hin (hmem.mp hin')), List.filter_append, h.keys_eq]
      simp [hother]

end Dict.Besides

/-! ## One binding more -/

/-- The given scopes are those of `σ`, but the scope `root` has one binding more. -/
structure Store.Besides (σ : Store) (root : ScopeId) (name : String) (value : Value)
    (scopes : Array Scope) : Prop where
  size_eq : scopes.size = σ.scopes.size
  others : ∀ i, i ≠ root.index → scopes[i]? = σ.scopes[i]?
  root : ∃ outer d e, σ.scopes[root.index]? = some ⟨outer, d⟩ ∧
    scopes[root.index]? = some ⟨outer, e⟩ ∧ d.Besides name value e

namespace Store.Besides

variable {σ : Store} {root here : ScopeId} {name other : String} {value : Value}
variable {scopes : Array Scope}

theorem of_scopes_eq (h : σ.Besides root name value scopes) {τ : Store}
    (hscopes : τ.scopes = σ.scopes) : τ.Besides root name value scopes := by
  obtain ⟨hsize, hothers, hroot⟩ := h
  rw [← hscopes] at hsize hothers hroot
  exact ⟨hsize, hothers, hroot⟩

/-- A scope is the same in both stores, or the one with the binding. -/
theorem scope?_cases (h : σ.Besides root name value scopes) (here : ScopeId) :
    (σ.withScopes scopes).scope? here = σ.scope? here ∨
      ∃ outer d e, σ.scope? here = some ⟨outer, d⟩ ∧
        (σ.withScopes scopes).scope? here = some ⟨outer, e⟩ ∧ d.Besides name value e := by
  by_cases hhere : here.index = root.index
  · obtain ⟨outer, d, e, hd, he, hbesides⟩ := h.root
    rw [← hhere] at hd he
    exact .inr ⟨outer, d, e, hd, he, hbesides⟩
  · exact .inl (h.others here.index hhere)

/-- The same scope binds another name. -/
theorem resolveWithin_eq (h : σ.Besides root name value scopes) (hother : other ≠ name)
    (limit : Nat) (here : ScopeId) :
    (σ.withScopes scopes).resolveWithin other limit here = σ.resolveWithin other limit here := by
  induction limit generalizing here with
  | zero => rfl
  | succ limit ih =>
    unfold resolveWithin
    rcases h.scope?_cases here with heq | ⟨outer, d, e, hd, he, hbesides⟩
    · rw [heq]
      simp only [ih]
    · rw [hd, he]
      simp only [hbesides.contains_eq hother, ih]

theorem bindings_get?_eq (h : σ.Besides root name value scopes) (hother : other ≠ name)
    (here : ScopeId) :
    ((σ.withScopes scopes).bindings here).get? other = (σ.bindings here).get? other := by
  unfold bindings
  rcases h.scope?_cases here with heq | ⟨outer, d, e, hd, he, hbesides⟩
  · rw [heq]
  · rw [hd, he]
    exact hbesides.get?_eq other hother

/-- **Another name means what it meant**, seen from any scope. -/
theorem lookup_eq (h : σ.Besides root name value scopes) (hother : other ≠ name)
    (here : ScopeId) : (σ.withScopes scopes).lookup here other = σ.lookup here other := by
  unfold lookup resolve?
  rw [h.resolveWithin_eq hother]
  cases σ.resolveWithin other (here.index + 1) here with
  | none => rfl
  | some owner => exact h.bindings_get?_eq hother owner

theorem newScope (h : σ.Besides root name value scopes) (outer : Option ScopeId)
    (bindings : Dict Value) :
    (σ.newScope outer bindings).2.Besides root name value (scopes.push ⟨outer, bindings⟩) := by
  obtain ⟨outer', d, e, hd, he, hbesides⟩ := h.root
  have hlt : root.index < σ.scopes.size := (Array.getElem?_eq_some_iff.mp hd).1
  have hne : root.index ≠ σ.scopes.size := Nat.ne_of_lt hlt
  refine ⟨by simp [Store.newScope, h.size_eq], fun i hi => ?_, outer', d, e, ?_, ?_, hbesides⟩
  · simp only [Store.newScope, Array.getElem?_push, h.size_eq, h.others i hi]
  · simpa [Store.newScope, Array.getElem?_push, hne] using hd
  · simpa [Array.getElem?_push, h.size_eq, hne] using he

/-- Another name may be defined in any scope. -/
theorem define (h : σ.Besides root name value scopes) (hother : other ≠ name) (here : ScopeId)
    (new : Value) :
    (σ.define here other new).Besides root name value
      ((σ.withScopes scopes).define here other new).scopes := by
  obtain ⟨outer, d, e, hd, he, hbesides⟩ := h.root
  refine ⟨by simp [Store.define, withScopes, h.size_eq], fun i hi => ?_, ?_⟩
  · simp only [Store.define, withScopes, Array.getElem?_modify, h.others i hi]
  · simp only [Store.define, withScopes, Array.getElem?_modify, hd, he]
    by_cases hhere : here.index = root.index
    · simp only [hhere, if_true]
      exact ⟨outer, _, _, rfl, rfl, hbesides.insert hother new⟩
    · simp only [hhere, if_false]
      exact ⟨outer, d, e, rfl, rfl, hbesides⟩

/-- **An assignment to another name** finds the same scope, or none. -/
theorem assign (h : σ.Besides root name value scopes) (hother : other ≠ name) (here : ScopeId)
    (new : Value) :
    ((σ.withScopes scopes).assign here other new).1 = (σ.assign here other new).1 ∧
      (σ.assign here other new).2.Besides root name value
        ((σ.withScopes scopes).assign here other new).2.scopes := by
  unfold Store.assign resolve?
  rw [h.resolveWithin_eq hother]
  cases σ.resolveWithin other (here.index + 1) here with
  | none => exact ⟨rfl, h⟩
  | some owner => exact ⟨rfl, h.define hother owner new⟩

end Store.Besides

/-- No function in the store uses the name. -/
def Store.Unmentioned (σ : Store) (name : String) : Prop :=
  ∀ f c, σ.function? f = some (.closure c) → name ∉ Stmt.namesList c.body

theorem Store.Unmentioned.newFunction {σ : Store} {name : String} (h : σ.Unmentioned name)
    {f : Function} (hf : ∀ c, f = .closure c → ∀ x ∈ Stmt.namesList c.body, x ≠ name) :
    (σ.newFunction f).2.Unmentioned name := by
  intro g c hg hname
  simp only [function?, Store.newFunction, Array.getElem?_push] at hg
  split at hg
  · cases hg
    exact hf c rfl name hname rfl
  · exact h g c hg hname

/-- The lock step of two runs that differ in a binding which no code mentions. -/
def besides (root : ScopeId) (name : String) (value : Value) : Lockstep where
  Stores σ scopes := σ.Besides root name value scopes ∧ σ.Unmentioned name
  Sinks := Eq
  Own _ := True
  Names other := other ≠ name
  Frozen := False
  size_eq h := h.1.size_eq
  names_of_closure h hf _ hother heq := h.2 _ _ hf (heq ▸ hother)
  lookup_eq scope _ h hother := h.1.lookup_eq hother scope
  own_newScope _ := trivial
  stores_newArray _ h := ⟨h.1.of_scopes_eq rfl, h.2⟩
  stores_newMap _ h := ⟨h.1.of_scopes_eq rfl, h.2⟩
  stores_newFunction _ h hf := ⟨h.1.of_scopes_eq rfl, h.2.newFunction hf⟩
  stores_newScope outer bindings h := ⟨h.1.newScope outer bindings, h.2⟩
  stores_define value h _ hother := ⟨h.1.define hother _ value, h.2⟩
  stores_assign := by
    rintro σ scopes other scope new - ⟨hbesides, hunmentioned⟩ hother
    obtain ⟨hfound, hafter⟩ := hbesides.assign hother scope new
    refine ⟨hfound, hafter, fun f c hf => hunmentioned f c ?_⟩
    unfold Store.assign at hf
    split at hf <;> exact hf
  stores_modifyArray _ _ _ h := ⟨h.1.of_scopes_eq rfl, h.2⟩
  stores_modifyMap _ _ _ h := ⟨h.1.of_scopes_eq rfl, h.2⟩
  sinks_writeLine := @Sink.eq_writeLine

/-- Nothing parts the two runs: they have the same output. -/
theorem not_parts_besides {root : ScopeId} {name : String} {value : Value} (p : Visit × Visit) :
    ¬ (besides root name value).Parts p := by
  rintro ⟨q, -, hsplits⟩
  cases hsplits with
  | line hjoins _ _ hline =>
    obtain ⟨-, hsinks⟩ := hjoins
    cases hsinks
    exact hline rfl
  | change hfrozen _ => exact hfrozen

/-! ## Passes -/

variable {ω : Type}

/-- An observer that looks at no scope. -/
def Observer.IgnoresScopes (o : Observer ω) : Prop :=
  ∀ value σ scopes sink seen, o value (σ.withScopes scopes) sink seen = o value σ sink seen

theorem Observer.ignoresScopes_discard : Observer.discard.IgnoresScopes := fun _ _ _ _ _ => rfl

theorem Observer.ignoresScopes_echo : Observer.echo.IgnoresScopes := by
  intro value σ scopes sink seen
  simp [Observer.echo]

namespace Pass

/-- Where two passes stand that differ in a binding which no code mentions. -/
inductive Beside (name : String) (value : Value) : Progress ω → Progress ω → Prop
  | intro {σ scopes root sink seen} (hstores : (besides root name value).Stores σ scopes) :
      Beside name value ⟨⟨σ, root⟩, sink, seen⟩ ⟨⟨σ.withScopes scopes, root⟩, sink, seen⟩

variable {name : String} {value : Value} {p : Pass ω} {now now' : Progress ω}

/-- **One statement.**  It comes to the same in both passes. -/
theorem Beside.evaluate (h : Beside name value now now') (fuel : Nat) {s : Stmt Unit}
    (hs : name ∉ s.names) :
    Related Eq (fun m m' => Beside name value (resume now m) (resume now' m')) Eq
      (s.evaluate fuel (machine now)) (s.evaluate fuel (machine now')) := by
  obtain ⟨hstores⟩ := h
  rename_i σ scopes root sink seen
  have hjoins : (besides root name value).Joins root ⟨σ, sink, root, 0⟩
      ⟨σ.withScopes scopes, sink, root, 0⟩ := ⟨hstores, rfl⟩
  have hnames : ∀ x ∈ s.names, x ≠ name := fun x hx heq => hs (heq ▸ hx)
  have hgoes := (besides root name value).goes_evaluate fuel hnames (fun _ => trivial) hjoins
  rcases hgoes with hrelated | hparts
  · unfold machine
    generalize s.evaluate fuel _ = r at hrelated ⊢
    generalize s.evaluate fuel _ = r' at hrelated ⊢
    cases hrelated with
    | ok hvalue hstate =>
      obtain ⟨hstores', hsinks⟩ := hstate
      cases hsinks
      exact .ok hvalue ⟨hstores'⟩
    | error herror hstate =>
      obtain ⟨hstores', hsinks⟩ := hstate
      cases hsinks
      exact .error herror ⟨hstores'⟩
  · exact absurd hparts (not_parts_besides _)

/-- The observer sees the same. -/
theorem Beside.observe (h : Beside name value now now') (hobserver : p.observer.IgnoresScopes)
    (v : Value) :
    ∃ answer after after', p.observe v now = (answer, after) ∧
      p.observe v now' = (answer, after') ∧ Beside name value after after' := by
  obtain ⟨hstores⟩ := h
  rename_i σ scopes root sink seen
  unfold Pass.observe
  simp only [hobserver v σ scopes sink seen]
  rcases p.observer v σ sink seen with ⟨_ | _, sink', seen'⟩
  · exact ⟨_, _, _, rfl, rfl, ⟨hstores⟩⟩
  · exact ⟨_, _, _, rfl, rfl, ⟨hstores⟩⟩

/-- **All statements of a program.** -/
theorem Beside.runStatements (hobserver : p.observer.IgnoresScopes) (ending : Except Error Flow)
    {code : List (Stmt Unit)} (hcode : ∀ s ∈ code, name ∉ s.names)
    (h : Beside name value now now') :
    (p.runStatements ending code now).1 = (p.runStatements ending code now').1 ∧
      Beside name value (p.runStatements ending code now).2
        (p.runStatements ending code now').2 := by
  induction code generalizing now now' with
  | nil => exact ⟨rfl, h⟩
  | cons s code ih =>
    rw [List.forall_mem_cons] at hcode
    have hstatement := h.evaluate p.fuel hcode.1
    generalize hs : s.evaluate p.fuel (machine now) = r at hstatement
    generalize hs' : s.evaluate p.fuel (machine now') = r' at hstatement
    cases hstatement with
    | error herror hafter =>
      subst herror
      rw [runStatements_of_stop hs, runStatements_of_stop hs']
      exact ⟨rfl, hafter⟩
    | @ok v v' m m' hvalue hafter =>
      subst hvalue
      obtain ⟨answer, after, after', ho, ho', hshown⟩ := hafter.observe hobserver v
      cases answer with
      | error e =>
        rw [runStatements_of_refused hs ho, runStatements_of_refused hs' ho']
        exact ⟨rfl, hshown⟩
      | ok _ =>
        rw [runStatements_of_shown hs ho, runStatements_of_shown hs' ho']
        exact ih hcode.2 hshown

/-- What two passes come to, of which the second had a binding more to begin with, and nothing else
in which they differ. -/
structure Unnoticed (name : String) (value : Value)
    (r r' : Except Error Flow × Progress ω) : Prop where
  /-- The same result or failure. -/
  result : r'.1 = r.1
  /-- The same output. -/
  output : r'.2.sink = r.2.sink
  /-- The observer has seen the same. -/
  seen : r'.2.seen = r.2.seen
  /-- The same contents of all arrays and maps, and the same functions. -/
  arrays : r'.2.ns.store.arrays = r.2.ns.store.arrays
  maps : r'.2.ns.store.maps = r.2.ns.store.maps
  functions : r'.2.ns.store.functions = r.2.ns.store.functions
  /-- The same value of every other name. -/
  others : ∀ other, other ≠ name → r'.2.ns.get? other = r.2.ns.get? other
  /-- The same order of the other names. -/
  order : r'.2.ns.names.filter (· ≠ name) = r.2.ns.names
  /-- The binding that the second pass had. -/
  kept : r'.2.ns.get? name = some value

theorem Beside.unnoticed {r r' : Except Error Flow × Progress ω} (hresult : r.1 = r'.1)
    (h : Beside name value r.2 r'.2) : Unnoticed name value r r' := by
  obtain ⟨result, after⟩ := r
  obtain ⟨result', after'⟩ := r'
  cases hresult
  obtain ⟨hbesides, -⟩ := h
  rename_i σ scopes root sink seen
  obtain ⟨outer, d, e, hd, he, hroot⟩ := hbesides.root
  have hbindings : σ.bindings root = d := by simp [Store.bindings, Store.scope?, hd]
  have hbindings' : (σ.withScopes scopes).bindings root = e := by
    simp [Store.bindings, Store.scope?, Store.withScopes, he]
  refine ⟨rfl, rfl, rfl, rfl, rfl, rfl, fun other hother => ?_, ?_, ?_⟩
  · exact hbesides.bindings_get?_eq hother root
  · simp only [Namespace.names, Namespace.bindings, hbindings, hbindings']
    exact hroot.keys_eq
  · simp only [Namespace.get?, Namespace.bindings, hbindings']
    exact hroot.get?_self

end Pass

/-- A new name in a namespace. -/
theorem Namespace.besides_define {ns : Namespace} {name : String} (hrooted : ns.Rooted)
    (hfree : name ∉ ns.names) (value : Value) :
    ns.store.Besides ns.root name value (ns.define name value).store.scopes := by
  obtain ⟨σ, root⟩ := ns
  obtain ⟨⟨outer, d⟩, hroot⟩ : ∃ scope, σ.scopes[root.index]? = some scope :=
    ⟨_, Array.getElem?_eq_getElem hrooted⟩
  have hbindings : σ.bindings root = d := by simp [Store.bindings, Store.scope?, hroot]
  simp only [Namespace.names, Namespace.bindings, hbindings] at hfree
  refine ⟨by simp [Namespace.define, Store.define], fun i hi => ?_, outer, d, d.insert name value,
    hroot, ?_, .insert_self hfree value⟩
  · simp [Namespace.define, Store.define, Array.getElem?_modify, Ne.symm hi]
  · simp [Namespace.define, Store.define, Array.getElem?_modify, hroot]

/-- **A definition that nothing mentions is not noticed.**  Let a namespace not bind a name, and let
neither an identifier of the source nor the body of a function in the store be that name.  If the
name is bound to any value at all, the source does the same as without the binding: it writes the
same, shows the observer the same values, and ends with the same result or failure.  Afterwards all
other names have the same values in the same order, and the name still has the value that it was
bound to. -/
theorem Pass.unrelated_definition {p : Pass ω} (hobserver : p.observer.IgnoresScopes)
    {now : Progress ω} {name source : String} (value : Value) (hrooted : now.ns.Rooted)
    (hfree : name ∉ now.ns.names) (hstore : now.ns.store.Unmentioned name)
    (hsource : ∀ tokens, TokenStream.ofSource source = .ok tokens →
      ¬ Spelled name tokens.toList) :
    Unnoticed name value (p.runSource source now)
      (p.runSource source { now with ns := now.ns.define name value }) := by
  have hstart : Beside name value now { now with ns := now.ns.define name value } :=
    ⟨Namespace.besides_define hrooted hfree value, hstore⟩
  rw [runSource_eq_runStatements, runSource_eq_runStatements]
  cases htokens : TokenStream.ofSource source with
  | error e =>
    rw [readProgram_of_error htokens]
    exact hstart.unnoticed rfl
  | ok tokens =>
    rw [readProgram_of_ok htokens]
    have hcode : ∀ s ∈ (tokens.program (TokenStream.ofSource_closed htokens)).code,
        name ∉ s.names := by
      intro s hs hname
      have hspelled := TokenStream.spells_program _ hs hname
      exact hsource tokens htokens (spelled_append.mpr (.inr hspelled))
    obtain ⟨hresult, hafter⟩ := hstart.runStatements hobserver _ hcode
    exact hafter.unnoticed hresult

/-- A namespace with a variable `x` and a function `f` that assigns to it. -/
def Namespace.switching : Namespace :=
  let (f, store) := Namespace.prelude.store.newFunction
    (.closure ⟨some "f", [], [.expr () (.assign () (.var () "x") (.boolean () true))], ⟨0⟩⟩)
  ((⟨store, ⟨0⟩⟩ : Namespace).define "x" .undefined).define "f" (.function f)

/-- A second name for the function plays no part in a call of the function. -/
theorem Pass.unrelated_definition_alias :
    Observer.discard.IgnoresScopes ∧ Observer.echo.IgnoresScopes ∧
      "g" ∉ Namespace.switching.names ∧
      (Namespace.switching.define "g" (.function ⟨2⟩)).names = ["println", "exit", "x", "f", "g"] ∧
      Unnoticed "g" (.function ⟨2⟩)
        (Pass.runSource ⟨.fatal, .echo, 9⟩ "f(); x" ⟨Namespace.switching, .limited 8, ()⟩)
        (Pass.runSource ⟨.fatal, .echo, 9⟩ "f(); x"
          ⟨Namespace.switching.define "g" (.function ⟨2⟩), .limited 8, ()⟩) := by
  refine ⟨Observer.ignoresScopes_discard, Observer.ignoresScopes_echo, by decide +kernel,
    by decide +kernel, ?_⟩
  have hstore : Namespace.switching.store.Unmentioned "g" := by
    rintro ⟨_ | _ | _ | i⟩ c hc
    · cases hc
    · cases hc
    · cases hc
      decide +kernel
    · cases hc
  have htokens : TokenStream.ofSource "f(); x" = .ok (.ofTokens
      [⟨.identifier "f", ⟨0, 1⟩⟩, ⟨.symbol .leftParen, ⟨1, 2⟩⟩, ⟨.symbol .rightParen, ⟨2, 3⟩⟩,
        ⟨.symbol .semicolon, ⟨3, 4⟩⟩, ⟨.identifier "x", ⟨5, 6⟩⟩] (.endAt 6)) := by rfl
  refine unrelated_definition (p := ⟨.fatal, .echo, 9⟩) Observer.ignoresScopes_echo _
    (by decide +kernel) (by decide +kernel) hstore ?_
  intro tokens h
  rw [htokens] at h
  cases h
  decide +kernel

end Script
