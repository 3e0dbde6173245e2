import Script.Number.Numeral
import Script.Proofs.Grammar.Basic

/-!
# Printing trees

A tree is printed as a sequence of lexemes, and the lexemes are written with blanks between them.
Parentheses stand only where the binding strength of the operators requires them, and around an
expression statement that would begin with a map or a function.  Bodies are braced blocks, and every
statement ends with a semicolon.

A number literal is written as the numeral that `numeral` gives for the node: trees hold the value
of a literal, and several numerals denote the same value.

## Main definitions

* `Lexeme.spell`: how a lexeme is written.
* `Expr.binding`: how tightly an expression holds together.
* `Expr.lexemes`, `Stmt.lexemes`: the lexemes of a tree.
* `Stmt.print`: the text of a statement.
* `Stmt.Printable`: the trees that have a text.
-/

namespace Script

/-! ### Writing lexemes -/

/-- A character inside a quoted text: the quote and the backslash are escaped. -/
def escapeIn (quote c : Char) : List Char :=
  if c = quote || c = '\\' then ['\\', c] else [c]

/-- A text between quotes. -/
def quoteWith (quote : Char) (s : String) : List Char :=
  quote :: (s.toList.flatMap (escapeIn quote) ++ [quote])

/-- How a lexeme is written. -/
def Lexeme.spell : Lexeme → List Char
  | .quoted content => quoteWith '\x22' content
  | l => l.text.toList

/-- Lexemes with blanks between them. -/
def spaced (ls : List Lexeme) : List Char := [' '].intercalate (ls.map Lexeme.spell)

/-! ### The lexemes of a tree -/

/-- The binding strength of what can be applied to.  An assignment has strength 0, and an operation
has one more than its level. -/
def appliedBinding : Nat := unaryLevel + 2

/-- How tightly an expression holds together. -/
def Expr.binding {α : Type} : Expr α → Nat
  | .assign _ _ _ => 0
  | .binary _ op _ _ => op.level + 1
  | .unary _ _ _ => unaryLevel + 1
  | _ => appliedBinding

/-- Lexemes with or without parentheses around them. -/
def enclose (needed : Bool) (ls : List Lexeme) : List Lexeme :=
  if needed then .symbol .leftParen :: (ls ++ [.symbol .rightParen]) else ls

/-- Names with commas between them. -/
def nameLexemes : List String → List Lexeme
  | [] => []
  | [name] => [.identifier name]
  | name :: names => .identifier name :: .symbol .comma :: nameLexemes names

/-- Lexemes in braces. -/
def braced (ls : List Lexeme) : List Lexeme :=
  .symbol .leftBrace :: (ls ++ [.symbol .rightBrace])

/-- The parameters of a function and its body, of which the lexemes are given. -/
def codeLexemes (params : List String) (body : List Lexeme) : List Lexeme :=
  .symbol .leftParen :: (nameLexemes params ++ .symbol .rightParen :: braced body)

/-- Whether lexemes begin like a map or a function. -/
def opensLiteral : List Lexeme → Bool
  | .symbol .leftBrace :: _ => true
  | .keyword .function :: _ => true
  | _ => false

section Lexemes

variable {α : Type} (numeral : α → Float → String)

mutual

/-- The lexemes of an expression.  An operand stands in parentheses if it binds less tightly than
its place requires: on the left of an operator as tightly as the operator itself, on the right more
tightly. -/
def Expr.lexemes : Expr α → List Lexeme
  | .number a x => [.number (numeral a x)]
  | .text _ s => [.quoted s]
  | .boolean _ b => [.keyword (if b then .trueWord else .falseWord)]
  | .undefined _ => [.keyword .undefined]
  | .var _ name => [.identifier name]
  | .binary _ op left right =>
    enclose (left.binding < op.level + 1) left.lexemes ++
      .symbol op.mark :: enclose (right.binding < op.level + 2) right.lexemes
  | .unary _ op operand =>
    .symbol op.mark :: enclose (operand.binding < unaryLevel + 1) operand.lexemes
  | .assign _ target value => target.lexemes ++ .symbol .assign :: value.lexemes
  | .call _ callee args =>
    enclose (callee.binding < appliedBinding) callee.lexemes ++
      .symbol .leftParen :: (Expr.itemLexemes args ++ [.symbol .rightParen])
  | .array _ items => .symbol .leftBracket :: (Expr.itemLexemes items ++ [.symbol .rightBracket])
  | .map _ entries => braced (Expr.entryLexemes entries)
  | .index _ container key =>
    enclose (container.binding < appliedBinding) container.lexemes ++
      .symbol .leftBracket :: (key.lexemes ++ [.symbol .rightBracket])
  | .field _ container name =>
    enclose (container.binding < appliedBinding) container.lexemes ++
      [.symbol .dot, .identifier name]
  | .lambda _ name params body =>
    .keyword .function ::
      (name.toList.map .identifier ++ codeLexemes params (Stmt.bodyLexemes body))

/-- Expressions with commas between them. -/
def Expr.itemLexemes : List (Expr α) → List Lexeme
  | [] => []
  | [e] => e.lexemes
  | e :: es => e.lexemes ++ .symbol .comma :: Expr.itemLexemes es

/-- Map entries with commas between them. -/
def Expr.entryLexemes : List (String × Expr α) → List Lexeme
  | [] => []
  | [(key, e)] => .quoted key :: .symbol .colon :: e.lexemes
  | (key, e) :: es =>
    .quoted key :: .symbol .colon :: (e.lexemes ++ .symbol .comma :: Expr.entryLexemes es)

/-- The lexemes of a place to assign to. -/
def Target.lexemes : Target α → List Lexeme
  | .var _ name => [.identifier name]
  | .index _ container key =>
    enclose (container.binding < appliedBinding) container.lexemes ++
      .symbol .leftBracket :: (key.lexemes ++ [.symbol .rightBracket])
  | .field _ container name =>
    enclose (container.binding < appliedBinding) container.lexemes ++
      [.symbol .dot, .identifier name]

/-- The lexemes of a statement, without its semicolon. -/
def Stmt.formLexemes : Stmt α → List Lexeme
  | .letVar _ name none => [.keyword .letWord, .identifier name]
  | .letVar _ name (some e) =>
    .keyword .letWord :: .identifier name :: .symbol .assign :: e.lexemes
  | .function _ name params body =>
    .keyword .function :: .identifier name :: codeLexemes params (Stmt.bodyLexemes body)
  | .expr _ e => enclose (opensLiteral e.lexemes) e.lexemes
  | .block _ body => braced (Stmt.bodyLexemes body)
  | .ifElse _ condition yes none =>
    .keyword .ifWord :: .symbol .leftParen :: (condition.lexemes ++ .symbol .rightParen ::
      braced (Stmt.bodyLexemes yes))
  | .ifElse _ condition yes (some no) =>
    .keyword .ifWord :: .symbol .leftParen :: (condition.lexemes ++ .symbol .rightParen ::
      (braced (Stmt.bodyLexemes yes) ++ .keyword .elseWord :: braced (Stmt.bodyLexemes no)))
  | .whileLoop _ condition body =>
    .keyword .whileWord :: .symbol .leftParen :: (condition.lexemes ++ .symbol .rightParen ::
      braced (Stmt.bodyLexemes body))
  | .forEach _ name items body =>
    .keyword .forWord :: .symbol .leftParen :: .identifier name :: .keyword .inWord ::
      (items.lexemes ++ .symbol .rightParen :: braced (Stmt.bodyLexemes body))
  | .tryCatch _ body name handler =>
    .keyword .tryWord :: (braced (Stmt.bodyLexemes body) ++
      .keyword .catchWord :: .symbol .leftParen :: .identifier name :: .symbol .rightParen ::
        braced (Stmt.bodyLexemes handler))
  | .throw _ e => .keyword .throwWord :: e.lexemes
  | .ret _ none => [.keyword .returnWord]
  | .ret _ (some e) => .keyword .returnWord :: e.lexemes
  | .brk _ => [.keyword .breakWord]
  | .cont _ => [.keyword .continueWord]

/-- The lexemes of statements, each with its semicolon. -/
def Stmt.bodyLexemes : List (Stmt α) → List Lexeme
  | [] => []
  | s :: body => (s.formLexemes ++ [.symbol .semicolon]) ++ Stmt.bodyLexemes body

end

/-- The lexemes of a statement. -/
def Stmt.lexemes (s : Stmt α) : List Lexeme := s.formLexemes numeral ++ [.symbol .semicolon]

/-- **The text of a statement.** -/
def Stmt.print (s : Stmt α) : String := String.ofList (spaced (s.lexemes numeral))

end Lexemes

/-! ### Trees that have a text -/

/-- Whether a text can be written as an identifier: a letter or an underscore, then letters, digits
and underscores, and not a keyword. -/
def isName (s : String) : Bool :=
  match s.toList with
  | [] => false
  | c :: cs =>
    (c.isAlpha || c = '_') && cs.all (fun c => c.isAlphanum || c = '_') &&
      (Keyword.ofText? s).isNone

section Printable

variable {α : Type} (numeral : α → Float → String)

mutual

/-- The identifiers of the expression are names, and its number literals have numerals. -/
def Expr.Printable : Expr α → Prop
  | .number a x => Numeral.read? (numeral a x) = some x
  | .text _ _ | .boolean _ _ | .undefined _ => True
  | .var _ name => isName name = true
  | .binary _ _ left right => left.Printable ∧ right.Printable
  | .unary _ _ operand => operand.Printable
  | .assign _ target value => target.Printable ∧ value.Printable
  | .call _ callee args => callee.Printable ∧ Expr.AllPrintable args
  | .array _ items => Expr.AllPrintable items
  | .map _ entries => Expr.EntriesPrintable entries
  | .index _ container key => container.Printable ∧ key.Printable
  | .field _ container name => container.Printable ∧ isName name = true
  | .lambda _ name params body =>
    name.all isName = true ∧ params.all isName = true ∧ Stmt.AllPrintable body

/-- All of the expressions are printable. -/
def Expr.AllPrintable : List (Expr α) → Prop
  | [] => True
  | e :: es => e.Printable ∧ Expr.AllPrintable es

/-- All values of the entries are printable; their keys may be any text. -/
def Expr.EntriesPrintable : List (String × Expr α) → Prop
  | [] => True
  | (_, e) :: es => e.Printable ∧ Expr.EntriesPrintable es

/-- The identifiers of the place are names, and its number literals have numerals. -/
def Target.Printable : Target α → Prop
  | .var _ name => isName name = true
  | .index _ container key => container.Printable ∧ key.Printable
  | .field _ container name => container.Printable ∧ isName name = true

/-- The identifiers of the statement are names, and its number literals have numerals. -/
def Stmt.Printable : Stmt α → Prop
  | .letVar _ name none => isName name = true
  | .letVar _ name (some e) => isName name = true ∧ e.Printable
  | .function _ name params body =>
    isName name = true ∧ params.all isName = true ∧ Stmt.AllPrintable body
  | .expr _ e | .throw _ e | .ret _ (some e) => e.Printable
  | .block _ body => Stmt.AllPrintable body
  | .ifElse _ condition yes none => condition.Printable ∧ Stmt.AllPrintable yes
  | .ifElse _ condition yes (some no) =>
    condition.Printable ∧ Stmt.AllPrintable yes ∧ Stmt.AllPrintable no
  | .whileLoop _ condition body => condition.Printable ∧ Stmt.AllPrintable body
  | .forEach _ name items body => isName name = true ∧ items.Printable ∧ Stmt.AllPrintable body
  | .tryCatch _ body name handler =>
    Stmt.AllPrintable body ∧ isName name = true ∧ Stmt.AllPrintable handler
  | .ret _ none | .brk _ | .cont _ => True

/-- All of the statements are printable. -/
def Stmt.AllPrintable : List (Stmt α) → Prop
  | [] => True
  | s :: body => s.Printable ∧ Stmt.AllPrintable body

end

end Printable

end Script
