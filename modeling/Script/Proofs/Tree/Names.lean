import Script.Tree.Basic

/-!
# The names in a tree

The names that a tree looks up, assigns to, declares or takes as parameters, function bodies
included.  The name of a member is none of them, and neither is the name that a function expression
shows itself under: nothing is ever bound to these.

## Main definitions

* `Expr.names`, `Target.names`, `Stmt.names`: the names in an expression, a place and a statement.
* `Stmt.declared?`: the name that a statement declares in the scope in which it is run.

## Main results

* `Stmt.names_erase`: annotations hold no names.
-/

namespace Script

variable {α β : Type}

mutual

/-- The names in an expression. -/
def Expr.names : Expr α → List String
  | .number _ _ | .text _ _ | .boolean _ _ | .undefined _ => []
  | .var _ name => [name]
  | .binary _ _ left right => left.names ++ right.names
  | .unary _ _ operand => operand.names
  | .assign _ target value => target.names ++ value.names
  | .call _ callee args => callee.names ++ Expr.namesList args
  | .array _ items => Expr.namesList items
  | .map _ entries => Expr.namesEntries entries
  | .index _ container key => container.names ++ key.names
  | .field _ container _ => container.names
  | .lambda _ _ params body => params ++ Stmt.namesList body

/-- The names in expressions. -/
def Expr.namesList : List (Expr α) → List String
  | [] => []
  | e :: rest => e.names ++ Expr.namesList rest

/-- The names in map entries.  A key is no name. -/
def Expr.namesEntries : List (String × Expr α) → List String
  | [] => []
  | (_, e) :: rest => e.names ++ Expr.namesEntries rest

/-- The names in a place. -/
def Target.names : Target α → List String
  | .var _ name => [name]
  | .index _ container key => container.names ++ key.names
  | .field _ container _ => container.names

/-- The names in a statement. -/
def Stmt.names : Stmt α → List String
  | .letVar _ name none => [name]
  | .letVar _ name (some e) => name :: e.names
  | .function _ name params body => name :: (params ++ Stmt.namesList body)
  | .expr _ e => e.names
  | .block _ body => Stmt.namesList body
  | .ifElse _ condition yes none => condition.names ++ Stmt.namesList yes
  | .ifElse _ condition yes (some no) =>
    condition.names ++ (Stmt.namesList yes ++ Stmt.namesList no)
  | .whileLoop _ condition body => condition.names ++ Stmt.namesList body
  | .forEach _ name items body => name :: (items.names ++ Stmt.namesList body)
  | .tryCatch _ body name handler => name :: (Stmt.namesList body ++ Stmt.namesList handler)
  | .throw _ e => e.names
  | .ret _ none => []
  | .ret _ (some e) => e.names
  | .brk _ => []
  | .cont _ => []

/-- The names in statements. -/
def Stmt.namesList : List (Stmt α) → List String
  | [] => []
  | s :: rest => s.names ++ Stmt.namesList rest

end

/-- The name that a statement declares in the scope in which it is run. -/
def Stmt.declared? : Stmt α → Option String
  | .letVar _ name _ | .function _ name _ _ => some name
  | _ => none

attribute [simp] Expr.names Expr.namesList Expr.namesEntries Target.names Stmt.names Stmt.namesList

theorem Expr.names_setAnn (a : α) (e : Expr α) : (e.setAnn a).names = e.names := by
  cases e <;> simp [Expr.setAnn]

/-- A place holds the names of the expression that it is written as. -/
theorem Expr.names_of_toTarget? {e : Expr α} {target : Target α} (h : e.toTarget? = some target) :
    target.names = e.names := by
  cases e with
  | var _ _ | index _ _ _ | field _ _ _ =>
    cases h
    simp
  | number | text | boolean | undefined | binary | unary | assign | call | array | map | lambda =>
    cases h

mutual

theorem Expr.names_mapAnn (f : α → β) : ∀ e : Expr α, (e.mapAnn f).names = e.names
  | .number _ _ | .text _ _ | .boolean _ _ | .undefined _ | .var _ _ => by simp
  | .binary _ _ left right => by simp [Expr.names_mapAnn f left, Expr.names_mapAnn f right]
  | .unary _ _ operand => by simp [Expr.names_mapAnn f operand]
  | .assign _ target value => by simp [Target.names_mapAnn f target, Expr.names_mapAnn f value]
  | .call _ callee args => by simp [Expr.names_mapAnn f callee, Expr.namesList_mapAnn f args]
  | .array _ items => by simp [Expr.namesList_mapAnn f items]
  | .map _ entries => by simp [Expr.namesEntries_mapAnn f entries]
  | .index _ container key => by simp [Expr.names_mapAnn f container, Expr.names_mapAnn f key]
  | .field _ container _ => by simp [Expr.names_mapAnn f container]
  | .lambda _ _ _ body => by simp [Stmt.namesList_mapAnn f body]

theorem Expr.namesList_mapAnn (f : α → β) :
    ∀ es : List (Expr α), Expr.namesList (Expr.mapAnnList f es) = Expr.namesList es
  | [] => by simp
  | e :: es => by simp [Expr.names_mapAnn f e, Expr.namesList_mapAnn f es]

theorem Expr.namesEntries_mapAnn (f : α → β) :
    ∀ es : List (String × Expr α), Expr.namesEntries (Expr.mapAnnEntries f es) =
      Expr.namesEntries es
  | [] => by simp
  | (_, e) :: es => by simp [Expr.names_mapAnn f e, Expr.namesEntries_mapAnn f es]

theorem Target.names_mapAnn (f : α → β) : ∀ t : Target α, (t.mapAnn f).names = t.names
  | .var _ _ => by simp
  | .index _ container key => by simp [Expr.names_mapAnn f container, Expr.names_mapAnn f key]
  | .field _ container _ => by simp [Expr.names_mapAnn f container]

theorem Stmt.names_mapAnn (f : α → β) : ∀ s : Stmt α, (s.mapAnn f).names = s.names
  | .letVar _ _ none | .ret _ none | .brk _ | .cont _ => by simp
  | .letVar _ _ (some e) | .expr _ e | .throw _ e | .ret _ (some e) => by
    simp [Expr.names_mapAnn f e]
  | .function _ _ _ body | .block _ body => by simp [Stmt.namesList_mapAnn f body]
  | .ifElse _ condition yes none => by
    simp [Expr.names_mapAnn f condition, Stmt.namesList_mapAnn f yes]
  | .ifElse _ condition yes (some no) => by
    simp [Expr.names_mapAnn f condition, Stmt.namesList_mapAnn f yes, Stmt.namesList_mapAnn f no]
  | .whileLoop _ condition body => by
    simp [Expr.names_mapAnn f condition, Stmt.namesList_mapAnn f body]
  | .forEach _ _ items body => by simp [Expr.names_mapAnn f items, Stmt.namesList_mapAnn f body]
  | .tryCatch _ body _ handler => by
    simp [Stmt.namesList_mapAnn f body, Stmt.namesList_mapAnn f handler]

theorem Stmt.namesList_mapAnn (f : α → β) :
    ∀ body : List (Stmt α), Stmt.namesList (Stmt.mapAnnList f body) = Stmt.namesList body
  | [] => by simp
  | s :: body => by simp [Stmt.names_mapAnn f s, Stmt.namesList_mapAnn f body]

end

/-- **Annotations hold no names.** -/
theorem Stmt.names_erase (s : Stmt α) : s.erase.names = s.names := Stmt.names_mapAnn _ s

end Script
