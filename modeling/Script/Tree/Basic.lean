import Script.Span

/-!
# Syntax trees

A program is a list of statements.  Every node of a tree carries an annotation of a type `α`: trees
that come from a source text carry spans, trees that are run carry nothing.  What a program does
does not depend on where it was written, so the evaluator runs trees of the second kind.

## Main definitions

* `Expr`, `Target`, `Stmt`: expressions, places that can be assigned to, and statements.
* `Expr.mapAnn`, `Stmt.mapAnn`: the same tree with other annotations.
* `Stmt.erase`: the tree without annotations.
-/

namespace Script

/-- Operators with two operands. -/
inductive BinaryOp where
  | add
  | sub
  | mul
  | div
  | mod
  | equal
  | notEqual
  | less
  | lessEqual
  | greater
  | greaterEqual
  | and
  | or
  deriving DecidableEq, Repr

/-- Operators with one operand. -/
inductive UnaryOp where
  | negate
  | not
  deriving DecidableEq, Repr

mutual

/-- Expressions.  The annotation of a node is its first argument. -/
inductive Expr (α : Type) where
  | number (ann : α) (value : Float)
  | text (ann : α) (value : String)
  | boolean (ann : α) (value : Bool)
  | undefined (ann : α)
  | var (ann : α) (name : String)
  | binary (ann : α) (op : BinaryOp) (left right : Expr α)
  | unary (ann : α) (op : UnaryOp) (operand : Expr α)
  | assign (ann : α) (target : Target α) (value : Expr α)
  | call (ann : α) (callee : Expr α) (args : List (Expr α))
  | array (ann : α) (items : List (Expr α))
  | map (ann : α) (entries : List (String × Expr α))
  | index (ann : α) (container key : Expr α)
  | field (ann : α) (container : Expr α) (name : String)
  | lambda (ann : α) (name : Option String) (params : List String) (body : List (Stmt α))

/-- The expressions that can stand on the left of an assignment. -/
inductive Target (α : Type) where
  | var (ann : α) (name : String)
  | index (ann : α) (container key : Expr α)
  | field (ann : α) (container : Expr α) (name : String)

/-- Statements.  A body is a list of statements with a scope of its own. -/
inductive Stmt (α : Type) where
  | letVar (ann : α) (name : String) (init : Option (Expr α))
  | function (ann : α) (name : String) (params : List String) (body : List (Stmt α))
  | expr (ann : α) (value : Expr α)
  | block (ann : α) (body : List (Stmt α))
  | ifElse (ann : α) (condition : Expr α) (yes : List (Stmt α)) (no : Option (List (Stmt α)))
  | whileLoop (ann : α) (condition : Expr α) (body : List (Stmt α))
  | forEach (ann : α) (name : String) (items : Expr α) (body : List (Stmt α))
  | tryCatch (ann : α) (body : List (Stmt α)) (name : String) (handler : List (Stmt α))
  | throw (ann : α) (value : Expr α)
  | ret (ann : α) (value : Option (Expr α))
  | brk (ann : α)
  | cont (ann : α)

end

/-- The annotation of an expression. -/
def Expr.ann {α : Type} : Expr α → α
  | .number a _ | .text a _ | .boolean a _ | .undefined a | .var a _ | .binary a _ _ _
  | .unary a _ _ | .assign a _ _ | .call a _ _ | .array a _ | .map a _ | .index a _ _
  | .field a _ _ | .lambda a _ _ _ => a

/-- The same expression with another annotation at its root. -/
def Expr.setAnn {α : Type} (a : α) : Expr α → Expr α
  | .number _ x => .number a x
  | .text _ s => .text a s
  | .boolean _ b => .boolean a b
  | .undefined _ => .undefined a
  | .var _ name => .var a name
  | .binary _ op left right => .binary a op left right
  | .unary _ op operand => .unary a op operand
  | .assign _ target value => .assign a target value
  | .call _ callee args => .call a callee args
  | .array _ items => .array a items
  | .map _ entries => .map a entries
  | .index _ container key => .index a container key
  | .field _ container name => .field a container name
  | .lambda _ name params body => .lambda a name params body

/-- The annotation of a statement. -/
def Stmt.ann {α : Type} : Stmt α → α
  | .letVar a _ _ | .function a _ _ _ | .expr a _ | .block a _ | .ifElse a _ _ _
  | .whileLoop a _ _ | .forEach a _ _ _ | .tryCatch a _ _ _ | .throw a _ | .ret a _ | .brk a
  | .cont a => a

/-- An expression as a place to assign to, if it is one. -/
def Expr.toTarget? {α : Type} : Expr α → Option (Target α)
  | .var a name => some (.var a name)
  | .index a container key => some (.index a container key)
  | .field a container name => some (.field a container name)
  | _ => none

section MapAnn

variable {α β : Type}

mutual

/-- The same expression with every annotation changed by `f`. -/
def Expr.mapAnn (f : α → β) : Expr α → Expr β
  | .number a x => .number (f a) x
  | .text a s => .text (f a) s
  | .boolean a b => .boolean (f a) b
  | .undefined a => .undefined (f a)
  | .var a name => .var (f a) name
  | .binary a op left right => .binary (f a) op (left.mapAnn f) (right.mapAnn f)
  | .unary a op operand => .unary (f a) op (operand.mapAnn f)
  | .assign a target value => .assign (f a) (target.mapAnn f) (value.mapAnn f)
  | .call a callee args => .call (f a) (callee.mapAnn f) (Expr.mapAnnList f args)
  | .array a items => .array (f a) (Expr.mapAnnList f items)
  | .map a entries => .map (f a) (Expr.mapAnnEntries f entries)
  | .index a container key => .index (f a) (container.mapAnn f) (key.mapAnn f)
  | .field a container name => .field (f a) (container.mapAnn f) name
  | .lambda a name params body => .lambda (f a) name params (Stmt.mapAnnList f body)

/-- The same expressions with every annotation changed by `f`. -/
def Expr.mapAnnList (f : α → β) : List (Expr α) → List (Expr β)
  | [] => []
  | e :: rest => e.mapAnn f :: Expr.mapAnnList f rest

/-- The same map entries with every annotation changed by `f`. -/
def Expr.mapAnnEntries (f : α → β) : List (String × Expr α) → List (String × Expr β)
  | [] => []
  | (key, e) :: rest => (key, e.mapAnn f) :: Expr.mapAnnEntries f rest

/-- The same place with every annotation changed by `f`. -/
def Target.mapAnn (f : α → β) : Target α → Target β
  | .var a name => .var (f a) name
  | .index a container key => .index (f a) (container.mapAnn f) (key.mapAnn f)
  | .field a container name => .field (f a) (container.mapAnn f) name

/-- The same statement with every annotation changed by `f`. -/
def Stmt.mapAnn (f : α → β) : Stmt α → Stmt β
  | .letVar a name none => .letVar (f a) name none
  | .letVar a name (some e) => .letVar (f a) name (some (e.mapAnn f))
  | .function a name params body => .function (f a) name params (Stmt.mapAnnList f body)
  | .expr a e => .expr (f a) (e.mapAnn f)
  | .block a body => .block (f a) (Stmt.mapAnnList f body)
  | .ifElse a condition yes none => .ifElse (f a) (condition.mapAnn f) (Stmt.mapAnnList f yes) none
  | .ifElse a condition yes (some no) =>
    .ifElse (f a) (condition.mapAnn f) (Stmt.mapAnnList f yes) (some (Stmt.mapAnnList f no))
  | .whileLoop a condition body => .whileLoop (f a) (condition.mapAnn f) (Stmt.mapAnnList f body)
  | .forEach a name items body => .forEach (f a) name (items.mapAnn f) (Stmt.mapAnnList f body)
  | .tryCatch a body name handler =>
    .tryCatch (f a) (Stmt.mapAnnList f body) name (Stmt.mapAnnList f handler)
  | .throw a e => .throw (f a) (e.mapAnn f)
  | .ret a none => .ret (f a) none
  | .ret a (some e) => .ret (f a) (some (e.mapAnn f))
  | .brk a => .brk (f a)
  | .cont a => .cont (f a)

/-- The same statements with every annotation changed by `f`. -/
def Stmt.mapAnnList (f : α → β) : List (Stmt α) → List (Stmt β)
  | [] => []
  | s :: rest => s.mapAnn f :: Stmt.mapAnnList f rest

end

end MapAnn

/-- The statement without annotations: what is run. -/
def Stmt.erase {α : Type} (s : Stmt α) : Stmt Unit := s.mapAnn fun _ => ()

/-- The expression without annotations. -/
def Expr.erase {α : Type} (e : Expr α) : Expr Unit := e.mapAnn fun _ => ()

/-! ### Equations -/

section Equations

variable {α β : Type}

-- trees are compared up to their annotations, which these equations move through each form
attribute [simp] Expr.mapAnn Expr.mapAnnList Expr.mapAnnEntries Target.mapAnn Stmt.mapAnn
  Stmt.mapAnnList

theorem Expr.mapAnnList_eq_map (f : α → β) (es : List (Expr α)) :
    Expr.mapAnnList f es = es.map (Expr.mapAnn f) := by
  induction es with
  | nil => simp only [Expr.mapAnnList, List.map_nil]
  | cons e es ih => simp only [Expr.mapAnnList, List.map_cons, ih]

theorem Expr.mapAnnEntries_eq_map (f : α → β) (es : List (String × Expr α)) :
    Expr.mapAnnEntries f es = es.map fun e => (e.1, e.2.mapAnn f) := by
  induction es with
  | nil => simp only [Expr.mapAnnEntries, List.map_nil]
  | cons e es ih => simp only [Expr.mapAnnEntries, List.map_cons, ih]

theorem Stmt.mapAnnList_eq_map (f : α → β) (body : List (Stmt α)) :
    Stmt.mapAnnList f body = body.map (Stmt.mapAnn f) := by
  induction body with
  | nil => simp only [Stmt.mapAnnList, List.map_nil]
  | cons s body ih => simp only [Stmt.mapAnnList, List.map_cons, ih]

/-- Whether an expression is a place does not depend on its annotations. -/
theorem Expr.toTarget?_mapAnn (f : α → β) (e : Expr α) :
    (e.mapAnn f).toTarget? = e.toTarget?.map (Target.mapAnn f) := by
  cases e <;> simp only [Expr.mapAnn, Expr.toTarget?, Option.map_none, Option.map_some,
    Target.mapAnn]

theorem Expr.erase_setAnn (a : α) (e : Expr α) : (e.setAnn a).erase = e.erase := by
  cases e <;> rfl

theorem Expr.erase_call (a : α) (callee : Expr α) (args : List (Expr α)) :
    (Expr.call a callee args).erase = .call () callee.erase (args.map Expr.erase) := by
  simp only [Expr.erase, Expr.mapAnn, Expr.mapAnnList_eq_map]
  rfl

theorem Expr.erase_array (a : α) (items : List (Expr α)) :
    (Expr.array a items).erase = .array () (items.map Expr.erase) := by
  simp only [Expr.erase, Expr.mapAnn, Expr.mapAnnList_eq_map]
  rfl

theorem Expr.erase_map (a : α) (entries : List (String × Expr α)) :
    (Expr.map a entries).erase = .map () (entries.map fun e => (e.1, e.2.erase)) := by
  simp only [Expr.erase, Expr.mapAnn, Expr.mapAnnEntries_eq_map]

theorem Expr.erase_lambda (a : α) (name : Option String) (params : List String)
    (body : List (Stmt α)) :
    (Expr.lambda a name params body).erase = .lambda () name params (body.map Stmt.erase) := by
  simp only [Expr.erase, Expr.mapAnn, Stmt.mapAnnList_eq_map]
  rfl

theorem Stmt.erase_function (a : α) (name : String) (params : List String)
    (body : List (Stmt α)) :
    (Stmt.function a name params body).erase = .function () name params (body.map Stmt.erase) := by
  simp only [Stmt.erase, Stmt.mapAnn, Stmt.mapAnnList_eq_map]
  rfl

theorem Stmt.erase_block (a : α) (body : List (Stmt α)) :
    (Stmt.block a body).erase = .block () (body.map Stmt.erase) := by
  simp only [Stmt.erase, Stmt.mapAnn, Stmt.mapAnnList_eq_map]
  rfl

theorem Stmt.erase_ifElse (a : α) (condition : Expr α) (yes : List (Stmt α))
    (no : Option (List (Stmt α))) :
    (Stmt.ifElse a condition yes no).erase =
      .ifElse () condition.erase (yes.map Stmt.erase) (no.map (List.map Stmt.erase)) := by
  cases no <;> simp only [Stmt.erase, Stmt.mapAnn, Stmt.mapAnnList_eq_map] <;> rfl

theorem Stmt.erase_whileLoop (a : α) (condition : Expr α) (body : List (Stmt α)) :
    (Stmt.whileLoop a condition body).erase =
      .whileLoop () condition.erase (body.map Stmt.erase) := by
  simp only [Stmt.erase, Stmt.mapAnn, Stmt.mapAnnList_eq_map]
  rfl

theorem Stmt.erase_forEach (a : α) (name : String) (items : Expr α) (body : List (Stmt α)) :
    (Stmt.forEach a name items body).erase =
      .forEach () name items.erase (body.map Stmt.erase) := by
  simp only [Stmt.erase, Stmt.mapAnn, Stmt.mapAnnList_eq_map]
  rfl

theorem Stmt.erase_tryCatch (a : α) (body : List (Stmt α)) (name : String)
    (handler : List (Stmt α)) :
    (Stmt.tryCatch a body name handler).erase =
      .tryCatch () (body.map Stmt.erase) name (handler.map Stmt.erase) := by
  simp only [Stmt.erase, Stmt.mapAnn, Stmt.mapAnnList_eq_map]
  rfl

end Equations

end Script
