import Script.Tree.Basic

/-!
# Jumps

A `return` leaves the function around it, and a `break` or a `continue` leaves what stands around it
up to the nearest loop.  So what can leave a statement shows in its text: a jump in a nested
function leaves that function only, and a loop is left by those jumps in its body that return.

A tree is well placed if there is something to leave for each of its jumps.

## Main definitions

* `Jump`: the ways to leave what stands around a statement.
* `Stmt.jumps`: the jumps that can leave a statement.
* `Expr.functionBodies`, `Stmt.functionBodies`: the bodies of the functions in a tree.
* `Stmt.WellPlaced`: the statements that may stand at the top level of a program.
-/

namespace Script

/-- The ways to leave what stands around a statement. -/
inductive Jump where
  | ret
  | brk
  | cont
  deriving DecidableEq, Repr

/-- Whether a jump leaves the loops around it. -/
def Jump.leavesLoops : Jump → Bool
  | ret => true
  | brk | cont => false

variable {α : Type}

mutual

/-- The jumps that can leave a statement: those that are in no function inside the statement, and if
they do not return, in no loop inside of it. -/
def Stmt.jumps : Stmt α → List Jump
  | .letVar _ _ _ | .function _ _ _ _ | .expr _ _ | .throw _ _ => []
  | .block _ body => Stmt.jumpsList body
  | .ifElse _ _ yes none => Stmt.jumpsList yes
  | .ifElse _ _ yes (some no) => Stmt.jumpsList yes ++ Stmt.jumpsList no
  | .whileLoop _ _ body => (Stmt.jumpsList body).filter Jump.leavesLoops
  | .forEach _ _ _ body => (Stmt.jumpsList body).filter Jump.leavesLoops
  | .tryCatch _ body _ handler => Stmt.jumpsList body ++ Stmt.jumpsList handler
  | .ret _ _ => [.ret]
  | .brk _ => [.brk]
  | .cont _ => [.cont]

/-- The jumps that can leave one of the statements. -/
def Stmt.jumpsList : List (Stmt α) → List Jump
  | [] => []
  | s :: rest => s.jumps ++ Stmt.jumpsList rest

end

mutual

/-- The bodies of the functions in an expression, those inside of other functions included. -/
def Expr.functionBodies : Expr α → List (List (Stmt α))
  | .number _ _ | .text _ _ | .boolean _ _ | .undefined _ | .var _ _ => []
  | .binary _ _ left right => left.functionBodies ++ right.functionBodies
  | .unary _ _ operand => operand.functionBodies
  | .assign _ target value => target.functionBodies ++ value.functionBodies
  | .call _ callee args => callee.functionBodies ++ Expr.functionBodiesList args
  | .array _ items => Expr.functionBodiesList items
  | .map _ entries => Expr.functionBodiesEntries entries
  | .index _ container key => container.functionBodies ++ key.functionBodies
  | .field _ container _ => container.functionBodies
  | .lambda _ _ _ body => body :: Stmt.functionBodiesList body

/-- The bodies of the functions in expressions. -/
def Expr.functionBodiesList : List (Expr α) → List (List (Stmt α))
  | [] => []
  | e :: rest => e.functionBodies ++ Expr.functionBodiesList rest

/-- The bodies of the functions in map entries. -/
def Expr.functionBodiesEntries : List (String × Expr α) → List (List (Stmt α))
  | [] => []
  | (_, e) :: rest => e.functionBodies ++ Expr.functionBodiesEntries rest

/-- The bodies of the functions in a place. -/
def Target.functionBodies : Target α → List (List (Stmt α))
  | .var _ _ => []
  | .index _ container key => container.functionBodies ++ key.functionBodies
  | .field _ container _ => container.functionBodies

/-- The bodies of the functions in a statement, those inside of other functions included. -/
def Stmt.functionBodies : Stmt α → List (List (Stmt α))
  | .letVar _ _ none | .ret _ none | .brk _ | .cont _ => []
  | .letVar _ _ (some e) => e.functionBodies
  | .function _ _ _ body => body :: Stmt.functionBodiesList body
  | .expr _ e => e.functionBodies
  | .block _ body => Stmt.functionBodiesList body
  | .ifElse _ condition yes none => condition.functionBodies ++ Stmt.functionBodiesList yes
  | .ifElse _ condition yes (some no) =>
    condition.functionBodies ++ (Stmt.functionBodiesList yes ++ Stmt.functionBodiesList no)
  | .whileLoop _ condition body => condition.functionBodies ++ Stmt.functionBodiesList body
  | .forEach _ _ items body => items.functionBodies ++ Stmt.functionBodiesList body
  | .tryCatch _ body _ handler => Stmt.functionBodiesList body ++ Stmt.functionBodiesList handler
  | .throw _ e => e.functionBodies
  | .ret _ (some e) => e.functionBodies

/-- The bodies of the functions in statements. -/
def Stmt.functionBodiesList : List (Stmt α) → List (List (Stmt α))
  | [] => []
  | s :: rest => s.functionBodies ++ Stmt.functionBodiesList rest

end

attribute [simp] Stmt.jumps Stmt.jumpsList Expr.functionBodies Expr.functionBodiesList
  Expr.functionBodiesEntries Target.functionBodies Stmt.functionBodies Stmt.functionBodiesList

/-- Only a return leaves the body, as it may if it is the body of a function. -/
def OnlyReturns (body : List (Stmt α)) : Prop := ∀ jump ∈ Stmt.jumpsList body, jump = .ret

instance (body : List (Stmt α)) : Decidable (OnlyReturns body) :=
  inferInstanceAs (Decidable (∀ jump ∈ Stmt.jumpsList body, jump = .ret))

/-- **The statement may stand at the top level of a program.**  Each `break` and each `continue` is
in a loop of its own function, and each `return` is in a function. -/
structure Stmt.WellPlaced (s : Stmt α) : Prop where
  outside : s.jumps = []
  inside : ∀ body ∈ s.functionBodies, OnlyReturns body

instance (s : Stmt α) : Decidable s.WellPlaced :=
  decidable_of_iff (s.jumps = [] ∧ ∀ body ∈ s.functionBodies, OnlyReturns body)
    ⟨fun h => ⟨h.1, h.2⟩, fun h => ⟨h.outside, h.inside⟩⟩

end Script
