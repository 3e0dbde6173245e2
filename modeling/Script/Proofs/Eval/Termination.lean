import Script.Proofs.Eval.Coverage
import Script.Proofs.Value.Similarity

/-!
# Programs without `while` come to an end

A program whose only loops go through items always comes to an end, whatever its functions call and
whatever it does to the containers that it goes through.  What decreases is the room for calls
first, and the size of the tree next: a call may run code that is larger than the call, but there is
room for no more than `maxCallDepth` calls inside each other, and all code that a program can run is
there from the start, as a part of the program or of a function object.  A loop through items has
them all when it begins.

Running out of fuel is how the evaluator says that an evaluation is not over.  So an evaluation
comes to an end if, from some amount of fuel on, it has one and the same outcome, and that is not
the stop for want of fuel.

## Main definitions

* `Expr.whileFree`, `Stmt.whileFree`: trees without a loop with a condition, function bodies
  included.
* `Guarantee.bounded`: function objects have no such loop, and no more than a given size.

## Main results

* `keeps_bounded`: an amount of fuel that suffices.
* `evaluate_terminates`: a statement without `while` comes to an end.
-/

namespace Script

open Eval Outcome

/-! ## Trees without `while` -/

mutual

/-- No part of an expression is a loop with a condition. -/
def Expr.whileFree : Expr Unit → Bool
  | .number _ _ | .text _ _ | .boolean _ _ | .undefined _ | .var _ _ => true
  | .binary _ _ left right => left.whileFree && right.whileFree
  | .unary _ _ operand => operand.whileFree
  | .assign _ target value => target.whileFree && value.whileFree
  | .call _ callee args => callee.whileFree && Expr.whileFreeList args
  | .array _ items => Expr.whileFreeList items
  | .map _ entries => Expr.whileFreeEntries entries
  | .index _ container key => container.whileFree && key.whileFree
  | .field _ container _ => container.whileFree
  | .lambda _ _ _ body => Stmt.whileFreeList body

/-- No part of any of the expressions is a loop with a condition. -/
def Expr.whileFreeList : List (Expr Unit) → Bool
  | [] => true
  | e :: rest => e.whileFree && Expr.whileFreeList rest

/-- No part of any of the entries is a loop with a condition. -/
def Expr.whileFreeEntries : List (String × Expr Unit) → Bool
  | [] => true
  | (_, e) :: rest => e.whileFree && Expr.whileFreeEntries rest

/-- No part of a place is a loop with a condition. -/
def Target.whileFree : Target Unit → Bool
  | .var _ _ => true
  | .index _ container key => container.whileFree && key.whileFree
  | .field _ container _ => container.whileFree

/-- No part of a statement is a loop with a condition, and it is none itself. -/
def Stmt.whileFree : Stmt Unit → Bool
  | .letVar _ _ none => true
  | .letVar _ _ (some e) => e.whileFree
  | .function _ _ _ body => Stmt.whileFreeList body
  | .expr _ e => e.whileFree
  | .block _ body => Stmt.whileFreeList body
  | .ifElse _ condition yes none => condition.whileFree && Stmt.whileFreeList yes
  | .ifElse _ condition yes (some no) =>
    condition.whileFree && Stmt.whileFreeList yes && Stmt.whileFreeList no
  | .whileLoop _ _ _ => false
  | .forEach _ _ items body => items.whileFree && Stmt.whileFreeList body
  | .tryCatch _ body _ handler => Stmt.whileFreeList body && Stmt.whileFreeList handler
  | .throw _ e => e.whileFree
  | .ret _ none => true
  | .ret _ (some e) => e.whileFree
  | .brk _ => true
  | .cont _ => true

/-- No part of any of the statements is a loop with a condition. -/
def Stmt.whileFreeList : List (Stmt Unit) → Bool
  | [] => true
  | s :: rest => s.whileFree && Stmt.whileFreeList rest

end

theorem Expr.whileFreeList_iff {es : List (Expr Unit)} :
    Expr.whileFreeList es = true ↔ ∀ e ∈ es, e.whileFree = true := by
  induction es with
  | nil => simp [Expr.whileFreeList]
  | cons e es ih => simp [Expr.whileFreeList, ih]

theorem Expr.whileFreeEntries_iff {es : List (String × Expr Unit)} :
    Expr.whileFreeEntries es = true ↔ ∀ e ∈ es, e.2.whileFree = true := by
  induction es with
  | nil => simp [Expr.whileFreeEntries]
  | cons e es ih => simp [Expr.whileFreeEntries, ih]

theorem Stmt.whileFreeList_iff {body : List (Stmt Unit)} :
    Stmt.whileFreeList body = true ↔ ∀ s ∈ body, s.whileFree = true := by
  induction body with
  | nil => simp [Stmt.whileFreeList]
  | cons s body ih => simp [Stmt.whileFreeList, ih]

theorem Expr.whileFree_calleePart (e : Expr Unit) : e.calleePart.whileFree = e.whileFree := by
  unfold Expr.calleePart
  split
  · simp only [Expr.whileFree]
  · rfl

theorem Target.whileFree_of_mem_parts {t : Target Unit} {e : Expr Unit} (h : t.whileFree = true)
    (he : e ∈ t.parts) : e.whileFree = true := by
  cases t with
  | var _ _ => cases he
  | index a container key => grind [Target.whileFree, Target.parts]
  | field a container name => grind [Target.whileFree, Target.parts]

/-- The parts of an expression without `while` are without. -/
theorem Expr.whileFree_of_mem_parts {e e' : Expr Unit} (h : e.whileFree = true)
    (he' : e' ∈ e.parts) : e'.whileFree = true := by
  cases e with
  | number _ _ | text _ _ | boolean _ _ | undefined _ | var _ _ | lambda _ _ _ _ => cases he'
  | binary a op left right => grind [Expr.whileFree, Expr.parts]
  | unary a op operand => grind [Expr.whileFree, Expr.parts]
  | index a container key => grind [Expr.whileFree, Expr.parts]
  | field a container name => grind [Expr.whileFree, Expr.parts]
  | assign a target value =>
    simp only [Expr.whileFree, Bool.and_eq_true] at h
    rcases List.mem_cons.mp he' with rfl | htarget
    · exact h.2
    · exact Target.whileFree_of_mem_parts h.1 htarget
  | call a callee args =>
    simp only [Expr.whileFree, Bool.and_eq_true] at h
    rcases List.mem_cons.mp he' with rfl | hargs
    · rw [Expr.whileFree_calleePart]
      exact h.1
    · exact Expr.whileFreeList_iff.mp h.2 e' hargs
  | array a items =>
    simp only [Expr.whileFree] at h
    exact Expr.whileFreeList_iff.mp h e' he'
  | map a entries =>
    simp only [Expr.whileFree] at h
    obtain ⟨entry, hentry, rfl⟩ := List.mem_map.mp he'
    exact Expr.whileFreeEntries_iff.mp h entry hentry

theorem Stmt.whileFree_of_mem_parts {s : Stmt Unit} {e : Expr Unit} (h : s.whileFree = true)
    (he : e ∈ s.parts) : e.whileFree = true := by
  cases s with
  | function _ _ _ _ | block _ _ | tryCatch _ _ _ _ | brk _ | cont _ => cases he
  | letVar a name init => cases init <;> grind [Stmt.whileFree, Stmt.parts]
  | expr a e => grind [Stmt.whileFree, Stmt.parts]
  | ifElse a condition yes no => cases no <;> grind [Stmt.whileFree, Stmt.parts]
  | whileLoop a condition body => cases h
  | forEach a name items body => grind [Stmt.whileFree, Stmt.parts]
  | throw a e => grind [Stmt.whileFree, Stmt.parts]
  | ret a e => cases e <;> grind [Stmt.whileFree, Stmt.parts]

/-- The bodies of a statement without `while` are without. -/
theorem Stmt.whileFree_of_mem_bodies {s s' : Stmt Unit} (h : s.whileFree = true)
    (hs' : s' ∈ s.bodies) : s'.whileFree = true := by
  refine Stmt.whileFreeList_iff.mp ?_ s' hs'
  cases s with
  | letVar _ _ _ | function _ _ _ _ | expr _ _ | throw _ _ | ret _ _ | brk _ | cont _ => cases hs'
  | block a body => grind [Stmt.whileFree, Stmt.bodies]
  | ifElse a condition yes no =>
    cases no <;> grind [Stmt.whileFree, Stmt.bodies, Stmt.whileFreeList_iff]
  | whileLoop a condition body => cases h
  | forEach a name items body => grind [Stmt.whileFree, Stmt.bodies]
  | tryCatch a body name handler => grind [Stmt.whileFree, Stmt.bodies, Stmt.whileFreeList_iff]

theorem Stmt.isWhile_of_whileFree {s : Stmt Unit} (h : s.whileFree = true) :
    s.isWhile = false := by
  cases s with
  | whileLoop a condition body => cases h
  | letVar _ _ _ | function _ _ _ _ | expr _ _ | block _ _ | ifElse _ _ _ _ | forEach _ _ _ _
  | tryCatch _ _ _ _ | throw _ _ | ret _ _ | brk _ | cont _ => rfl

/-- The functions that an expression without `while` makes are without. -/
theorem Expr.whileFree_of_mem_codes {e : Expr Unit} {body : List (Stmt Unit)}
    (h : e.whileFree = true) (hbody : body ∈ e.codes) : Stmt.whileFreeList body = true := by
  cases e <;> grind [Expr.whileFree, Expr.codes]

theorem Stmt.whileFree_of_mem_codes {s : Stmt Unit} {body : List (Stmt Unit)}
    (h : s.whileFree = true) (hbody : body ∈ s.codes) : Stmt.whileFreeList body = true := by
  cases s <;> grind [Stmt.whileFree, Stmt.codes]

/-! ## Sizes -/

theorem Expr.sizeOf_calleePart_le (e : Expr Unit) : sizeOf e.calleePart ≤ sizeOf e := by
  unfold Expr.calleePart
  split
  · simp
    omega
  · exact Nat.le_refl _

theorem Target.sizeOf_lt_of_mem_parts {t : Target Unit} {e : Expr Unit} (he : e ∈ t.parts) :
    sizeOf e < sizeOf t := by
  cases t with
  | var _ _ => cases he
  | index a container key => grind [Target.parts, Target.index.sizeOf_spec]
  | field a container name => grind [Target.parts, Target.field.sizeOf_spec]

/-- The parts of an expression are smaller than the expression. -/
theorem Expr.sizeOf_lt_of_mem_parts {e e' : Expr Unit} (he' : e' ∈ e.parts) :
    sizeOf e' < sizeOf e := by
  cases e with
  | number _ _ | text _ _ | boolean _ _ | undefined _ | var _ _ | lambda _ _ _ _ => cases he'
  | binary a op left right => grind [Expr.parts, Expr.binary.sizeOf_spec]
  | unary a op operand => grind [Expr.parts, Expr.unary.sizeOf_spec]
  | index a container key => grind [Expr.parts, Expr.index.sizeOf_spec]
  | field a container name => grind [Expr.parts, Expr.field.sizeOf_spec]
  | assign a target value =>
    rw [Expr.assign.sizeOf_spec]
    rcases List.mem_cons.mp he' with rfl | htarget
    · omega
    · have hlt := Target.sizeOf_lt_of_mem_parts htarget
      omega
  | call a callee args =>
    rw [Expr.call.sizeOf_spec]
    rcases List.mem_cons.mp he' with rfl | hargs
    · have hle := Expr.sizeOf_calleePart_le callee
      omega
    · have hlt := List.sizeOf_lt_of_mem hargs
      omega
  | array a items =>
    rw [Expr.array.sizeOf_spec]
    have hlt := List.sizeOf_lt_of_mem he'
    simp only [Expr.parts] at hlt
    omega
  | map a entries =>
    obtain ⟨⟨key, value⟩, hentry, rfl⟩ := List.mem_map.mp he'
    rw [Expr.map.sizeOf_spec]
    have hlt := List.sizeOf_lt_of_mem hentry
    rw [Prod.mk.sizeOf_spec] at hlt
    show sizeOf value < _
    omega

/-- The expressions of a statement are smaller than the statement. -/
theorem Stmt.sizeOf_lt_of_mem_parts {s : Stmt Unit} {e : Expr Unit} (he : e ∈ s.parts) :
    sizeOf e < sizeOf s := by
  cases s with
  | function _ _ _ _ | block _ _ | tryCatch _ _ _ _ | brk _ | cont _ => cases he
  | letVar a name init =>
    cases init <;> grind [Stmt.parts, Stmt.letVar.sizeOf_spec, Option.some.sizeOf_spec]
  | expr a e => grind [Stmt.parts, Stmt.expr.sizeOf_spec]
  | ifElse a condition yes no => grind [Stmt.parts, Stmt.ifElse.sizeOf_spec]
  | whileLoop a condition body => grind [Stmt.parts, Stmt.whileLoop.sizeOf_spec]
  | forEach a name items body => grind [Stmt.parts, Stmt.forEach.sizeOf_spec]
  | throw a e => grind [Stmt.parts, Stmt.throw.sizeOf_spec]
  | ret a e => cases e <;> grind [Stmt.parts, Stmt.ret.sizeOf_spec, Option.some.sizeOf_spec]

/-- The statements of a statement are smaller than it. -/
theorem Stmt.sizeOf_lt_of_mem_bodies {s s' : Stmt Unit} (hs' : s' ∈ s.bodies) :
    sizeOf s' < sizeOf s := by
  cases s with
  | letVar _ _ _ | function _ _ _ _ | expr _ _ | throw _ _ | ret _ _ | brk _ | cont _ => cases hs'
  | block a body =>
    have hlt : sizeOf s' < sizeOf body := List.sizeOf_lt_of_mem hs'
    rw [Stmt.block.sizeOf_spec]
    omega
  | ifElse a condition yes no =>
    rw [Stmt.ifElse.sizeOf_spec]
    rcases List.mem_append.mp hs' with hyes | hno
    · have hlt := List.sizeOf_lt_of_mem hyes
      omega
    · cases no with
      | none => cases hno
      | some no =>
        have hlt : sizeOf s' < sizeOf no := List.sizeOf_lt_of_mem hno
        rw [Option.some.sizeOf_spec]
        omega
  | whileLoop a condition body =>
    have hlt : sizeOf s' < sizeOf body := List.sizeOf_lt_of_mem hs'
    rw [Stmt.whileLoop.sizeOf_spec]
    omega
  | forEach a name items body =>
    have hlt : sizeOf s' < sizeOf body := List.sizeOf_lt_of_mem hs'
    rw [Stmt.forEach.sizeOf_spec]
    omega
  | tryCatch a body name handler =>
    rw [Stmt.tryCatch.sizeOf_spec]
    rcases List.mem_append.mp hs' with hbody | hhandler
    · have hlt := List.sizeOf_lt_of_mem hbody
      omega
    · have hlt := List.sizeOf_lt_of_mem hhandler
      omega

/-- The code of a function that an expression makes is smaller than the expression. -/
theorem Expr.sizeOf_lt_of_mem_codes {e : Expr Unit} {body : List (Stmt Unit)}
    (hbody : body ∈ e.codes) : sizeOf body < sizeOf e := by
  cases e <;> grind [Expr.codes, Expr.lambda.sizeOf_spec]

theorem Stmt.sizeOf_lt_of_mem_codes {s : Stmt Unit} {body : List (Stmt Unit)}
    (hbody : body ∈ s.codes) : sizeOf body < sizeOf s := by
  cases s <;> grind [Stmt.codes, Stmt.function.sizeOf_spec]

/-! ## Enough fuel -/

/-- Function objects have no `while` in them and at most the size `K`, and there is enough fuel. -/
def Guarantee.bounded (K : Nat) : Guarantee where
  good
    | .native _ => True
    | .closure c => Stmt.whileFreeList c.body = true ∧ sizeOf c.body ≤ K
  good_native _ := trivial
  total := True

/-- The fuel that a tree of the given size needs at call depth `d`, if function bodies have at most
the size `K`. -/
def fuelNeeded (K d size : Nat) : Nat := size + (maxCallDepth - d) * (K + 1) + 1

/-- A function body may need all the fuel that the size of a call does not account for. -/
theorem fuelNeeded_call {K d size size' : Nat} (hd : d < maxCallDepth) (hsize : size' ≤ K) :
    fuelNeeded K (d + 1) size' < fuelNeeded K d size := by
  have hroom : maxCallDepth - d = maxCallDepth - (d + 1) + 1 := by omega
  unfold fuelNeeded
  rw [hroom, Nat.succ_mul]
  omega

/-- **An amount of fuel that suffices.**  The induction is on the fuel: the parts of a tree are
smaller than the tree, and the body of a function has one call less to go. -/
theorem keeps_bounded (K fuel : Nat) :
    (∀ d e, e.whileFree = true → sizeOf e ≤ K → fuelNeeded K d (sizeOf e) ≤ fuel →
      (Guarantee.bounded K).Keeps d (evalExpr fuel e)) ∧
    ∀ d s, s.whileFree = true → sizeOf s ≤ K → fuelNeeded K d (sizeOf s) ≤ fuel →
      (Guarantee.bounded K).Keeps d (execStmt fuel s) := by
  induction fuel with
  | zero =>
    exact ⟨fun _ _ _ _ h => absurd h (Nat.not_succ_le_zero _),
      fun _ _ _ _ h => absurd h (Nat.not_succ_le_zero _)⟩
  | succ fuel ih =>
    obtain ⟨heval, hexec⟩ := ih
    constructor
    · intro d e hfree hsize hfuel
      refine Guarantee.keeps_evalWith (fun e' he' => ?_) (fun hd c hc s hs => ?_)
        fun body hbody _ _ _ => ⟨Expr.whileFree_of_mem_codes hfree hbody, ?_⟩
      · have hlt := Expr.sizeOf_lt_of_mem_parts he'
        refine heval d e' (Expr.whileFree_of_mem_parts hfree he') (by omega) ?_
        unfold fuelNeeded at hfuel ⊢
        omega
      -- the body of a function is no part of the call, but there is room for one call less
      · obtain ⟨hcfree, hcsize⟩ := hc
        have hlt := List.sizeOf_lt_of_mem hs
        have hcall : fuelNeeded K (d + 1) (sizeOf s) < fuelNeeded K d (sizeOf e) :=
          fuelNeeded_call hd (by omega)
        exact hexec (d + 1) s (Stmt.whileFreeList_iff.mp hcfree s hs) (by omega) (by omega)
      · have hlt := Expr.sizeOf_lt_of_mem_codes hbody
        show sizeOf body ≤ K
        omega
    · intro d s hfree hsize hfuel
      refine Guarantee.keeps_execWith (fun _ => Stmt.isWhile_of_whileFree hfree)
        (fun e he => ?_) (fun s' hs' => ?_)
        fun body hbody _ _ _ => ⟨Stmt.whileFree_of_mem_codes hfree hbody, ?_⟩
      · have hlt := Stmt.sizeOf_lt_of_mem_parts he
        refine heval d e (Stmt.whileFree_of_mem_parts hfree he) (by omega) ?_
        unfold fuelNeeded at hfuel ⊢
        omega
      · have hlt := Stmt.sizeOf_lt_of_mem_bodies hs'
        refine hexec d s' (Stmt.whileFree_of_mem_bodies hfree hs') (by omega) ?_
        unfold fuelNeeded at hfuel ⊢
        omega
      · have hlt := Stmt.sizeOf_lt_of_mem_codes hbody
        show sizeOf body ≤ K
        omega

/-- The size of the code of a function object is at most the size of all function objects. -/
theorem sizeOf_body_le {functions : Array Function} {c : Closure}
    (h : .closure c ∈ functions) : sizeOf c.body ≤ sizeOf functions := by
  have hlt : sizeOf (Function.closure c) < sizeOf functions := Array.sizeOf_lt_of_mem h
  rw [Function.closure.sizeOf_spec] at hlt
  have hc : sizeOf c.body < sizeOf c := by
    cases c
    simp
    omega
  omega

/-- **A program without `while` comes to an end.**  If neither the statement nor any function object
has a loop with a condition in it, the evaluation of the statement has an outcome, which is the same
for every sufficient amount of fuel.

The texts of values, their comparison and the search for names need no fuel: on every store, also
where containers contain themselves, their bounds play no part in the result.  A comparison comes to
an end because it never enters a pair of containers that is under way: it has a finite run, and its
result is the answer of that run. -/
theorem evaluate_terminates {s : Stmt Unit} {m : Machine} (hs : s.whileFree = true)
    (hm : ∀ c, .closure c ∈ m.store.functions → Stmt.whileFreeList c.body = true) :
    (∃ n result, (∀ m', result ≠ .error .outOfFuel m') ∧
      ∀ fuel, n ≤ fuel → s.evaluate fuel m = result) ∧
    ∀ σ : Store,
      (∀ d nested v, σ.depthBound ≤ d →
        σ.render d [] nested v = σ.render σ.depthBound [] nested v) ∧
      (∀ d x y, σ.comparisonBound ≤ d → σ.equalWithin d [] x y = σ.equal x y) ∧
      (∀ x y answer, σ.Compares [] x y answer ↔ answer = σ.equal x y) ∧
      (σ.OuterOlder → ∀ limit scope name, scope.index + 1 ≤ limit →
        σ.resolveWithin name limit scope = σ.resolve? scope name) := by
  refine ⟨?_, fun σ => ⟨fun d nested v h => Store.render_of_le h nested v,
    fun d x y h => Store.equalWithin_of_le h x y, fun x y answer => Store.compares_iff,
    fun hσ limit scope name h => Store.resolveWithin_of_le hσ name h⟩⟩
  -- a size that no code of the program exceeds
  let K := sizeOf s + sizeOf m.store.functions
  have hholds : (Guarantee.bounded K).Holds m.store := by
    intro f hf
    cases f with
    | native n => exact trivial
    | closure c => exact ⟨hm c hf, Nat.le_add_left_of_le (sizeOf_body_le hf)⟩
  have hkeeps : (Guarantee.bounded K).Keeps m.depth
      (execStmt (fuelNeeded K m.depth (sizeOf s)) s) :=
    (keeps_bounded K _).2 m.depth s hs (Nat.le_add_right _ _) (Nat.le_refl _)
  have hfuel : ¬ Exhausts (s.evaluate (fuelNeeded K m.depth (sizeOf s))) m := by
    rw [exhausts_evaluate_iff]
    exact (hkeeps m rfl hholds).2 trivial
  exact ⟨_, _, fun m' heq => hfuel ⟨m', heq⟩, fun fuel hle => evaluate_of_le hfuel hle⟩

/-- A machine where `a` is an array that contains itself, and `f` is a function that calls itself
and puts an item at the end of `a`. -/
def endlessMachine : Machine where
  store :=
    { arrays := #[#[.array ⟨0⟩]]
      maps := #[]
      functions := #[.closure ⟨some "f", [],
        [.expr () (.call () (.field () (.var () "a") "push") [.var () "a"]),
          .expr () (.call () (.var () "f") [])], ⟨0⟩⟩]
      scopes := #[⟨none, (Dict.empty.insert "a" (.array ⟨0⟩)).insert "f" (.function ⟨0⟩)⟩] }
  sink := .unlimited
  scope := ⟨0⟩
  depth := 0

/-- `for (x in a) { f(); }` comes to an end there. -/
theorem evaluate_terminates_endlessMachine :
    ∃ n result, (∀ m', result ≠ .error .outOfFuel m') ∧
      ∀ fuel, n ≤ fuel →
        (Stmt.forEach () "x" (.var () "a") [.expr () (.call () (.var () "f") [])]).evaluate fuel
          endlessMachine = result := by
  refine (evaluate_terminates (by decide) ?_).1
  intro c hc
  have hc : Function.closure c ∈ endlessMachine.store.functions := hc
  simp only [endlessMachine, List.mem_toArray, List.mem_singleton, Function.closure.injEq] at hc
  rw [hc]
  decide

end Script
