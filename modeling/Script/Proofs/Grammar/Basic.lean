import Script.Number.Numeral
import Script.Token.Basic
import Script.Tree.Basic

/-!
# The grammar

Which sequences of tokens are an expression or a statement, and of which tree.  The grammar is a
relation between phrases and token sequences, and it says nothing about how a sequence is read.
It is stratified: an operator has a level, its left operand may be of the same level and its right
operand must be of a tighter one, and whatever is looser needs parentheses.

The shape alone does not decide everything: a phrase ends where the next token cannot go on with
it.  So a derivation also says which token follows.  An operation is not followed by an operator
that it could take in, an `if` without `else` is not followed by an `else`, which therefore belongs
to the nearest `if` that is open, and a statement is not followed by a semicolon, which therefore
belongs to it.

## Main definitions

* `BinaryOp.level`, `BinaryOp.mark`, `UnaryOp.mark`: how operators bind and how they are written.
* `Phrase`: what can be derived, with the tree that it denotes.
* `Derives`: the productions.
-/

namespace Script

/-- How tightly an operator binds; a greater level binds tighter. -/
def BinaryOp.level : BinaryOp → Nat
  | or => 0
  | and => 1
  | equal | notEqual => 2
  | less | lessEqual | greater | greaterEqual => 3
  | add | sub => 4
  | mul | div | mod => 5

/-- The symbol of an operator. -/
def BinaryOp.mark : BinaryOp → Symbol
  | add => .plus
  | sub => .minus
  | mul => .star
  | div => .slash
  | mod => .percent
  | equal => .equalEqual
  | notEqual => .bangEqual
  | less => .less
  | lessEqual => .lessEqual
  | greater => .greater
  | greaterEqual => .greaterEqual
  | and => .bothAnd
  | or => .bothOr

/-- The symbol of an operator. -/
def UnaryOp.mark : UnaryOp → Symbol
  | negate => .minus
  | not => .bang

/-- The level of operators with one operand, above that of every operator with two. -/
def unaryLevel : Nat := 6

theorem BinaryOp.level_lt_unaryLevel (op : BinaryOp) : op.level < unaryLevel := by
  cases op <;> decide

namespace Grammar

/-- What can be derived.  Every phrase says which tree its tokens denote. -/
inductive Phrase where
  /-- An expression, assignments included. -/
  | expression (e : Expr Span)
  /-- An expression whose operators outside of parentheses are at least of the given level. -/
  | operation (level : Nat) (e : Expr Span)
  /-- An expression with the arguments, indices and member names that are applied to it. -/
  | applied (e : Expr Span)
  /-- An expression that is closed in itself. -/
  | primary (e : Expr Span)
  /-- Expressions with commas between them, up to a closing symbol. -/
  | items (close : Symbol) (es : List (Expr Span))
  /-- Map entries with commas between them. -/
  | entries (es : List (String × Expr Span))
  /-- Parameter names with commas between them. -/
  | params (names : List String)
  /-- The parameters and the body of a function. -/
  | code (params : List String) (body : List (Stmt Span))
  /-- Statements, one after the other. -/
  | statements (body : List (Stmt Span))
  /-- Statements in braces. -/
  | block (body : List (Stmt Span))
  /-- A block, or a single statement in its place. -/
  | branch (body : List (Stmt Span))
  /-- A statement without its semicolon and its span. -/
  | form (build : Span → Stmt Span)
  /-- A statement. -/
  | statement (s : Stmt Span)

/-- The span from the first to the last of the given tokens. -/
def cover (ts : List Token) : Span :=
  match ts.head?, ts.getLast? with
  | some first, some last => ⟨first.span.start, max last.span.stop first.span.start⟩
  | _, _ => ⟨0, 0⟩

/-- Whether tokens look like a block: an empty pair of braces, or an opening brace without a key and
a colon after it. -/
def opensBlock : List Token → Bool
  | brace :: key :: colon :: _ =>
    brace.isSymbol .leftBrace && !(key.key?.isSome && colon.isSymbol .colon)
  | [left, right] => left.isSymbol .leftBrace && right.isSymbol .rightBrace
  | _ => false

/-- Whether tokens begin with the word for a function and a name. -/
def opensDeclaration : List Token → Bool
  | word :: name :: _ => word.isKeyword .function && name.isIdentifier
  | _ => false

/-- Whether tokens begin with an opening brace. -/
def opensBrace : List Token → Bool
  | brace :: _ => brace.isSymbol .leftBrace
  | [] => false

/-- The token is no operator of the given level. -/
def NoOperator (level : Nat) (t : Token) : Prop :=
  ∀ op : BinaryOp, op.level = level → t.lexeme ≠ .symbol op.mark

/-- The token begins nothing that can be applied to an expression. -/
def NoApplication (t : Token) : Prop :=
  t.lexeme ≠ .symbol .leftParen ∧ t.lexeme ≠ .symbol .leftBracket ∧ t.lexeme ≠ .symbol .dot

/-- The token ends a statement. -/
def EndsStatement (t : Token) : Prop :=
  t.lexeme = .symbol .semicolon ∨ t.lexeme = .symbol .rightBrace ∨ t.lexeme = .endOfInput

/-- The token ends a sequence of statements. -/
def EndsBlock (t : Token) : Prop := t.lexeme = .symbol .rightBrace ∨ t.lexeme = .endOfInput

/-- **The productions.**  `Derives phrase ts next` says that the tokens `ts` are the given phrase in
front of the token `next`.  Each production says how the tokens of a phrase are put together from
the tokens of its parts, and which tree they denote. -/
inductive Derives : Phrase → List Token → Token → Prop where
  /-- `place = value`, grouped to the right. -/
  | assign {place value : Expr Span} {target : Target Span} {ts us : List Token}
      {mark next : Token} (hplace : Derives (.operation 0 place) ts mark)
      (htarget : place.toTarget? = some target) (hmark : mark.lexeme = .symbol .assign)
      (hvalue : Derives (.expression value) us next) :
      Derives (.expression (.assign (place.ann.join value.ann) target value)) (ts ++ mark :: us)
        next
  | noAssign {e : Expr Span} {ts : List Token} {next : Token}
      (h : Derives (.operation 0 e) ts next) (hop : NoOperator 0 next)
      (hassign : next.lexeme ≠ .symbol .assign) : Derives (.expression e) ts next
  /-- `left op right`, grouped to the left. -/
  | binary {op : BinaryOp} {left right : Expr Span} {ts us : List Token} {mark next : Token}
      (hleft : Derives (.operation op.level left) ts mark) (hmark : mark.lexeme = .symbol op.mark)
      (hright : Derives (.operation (op.level + 1) right) us next)
      (hop : NoOperator (op.level + 1) next) :
      Derives (.operation op.level (.binary (left.ann.join right.ann) op left right))
        (ts ++ mark :: us) next
  | tighter {level : Nat} {e : Expr Span} {ts : List Token} {next : Token}
      (hlevel : level < unaryLevel) (h : Derives (.operation (level + 1) e) ts next)
      (hop : NoOperator (level + 1) next) : Derives (.operation level e) ts next
  | unary {op : UnaryOp} {e : Expr Span} {ts : List Token} {mark next : Token}
      (hmark : mark.lexeme = .symbol op.mark) (h : Derives (.operation unaryLevel e) ts next) :
      Derives (.operation unaryLevel (.unary (mark.span.join e.ann) op e)) (mark :: ts) next
  | noUnary {e : Expr Span} {ts : List Token} {next : Token} (h : Derives (.applied e) ts next)
      (hnext : NoApplication next) : Derives (.operation unaryLevel e) ts next
  | call {f : Expr Span} {args : List (Expr Span)} {ts us : List Token} {left right next : Token}
      (hf : Derives (.applied f) ts left) (hleft : left.lexeme = .symbol .leftParen)
      (hargs : Derives (.items .rightParen args) us right)
      (hright : right.lexeme = .symbol .rightParen) :
      Derives (.applied (.call (f.ann.join right.span) f args)) (ts ++ left :: (us ++ [right]))
        next
  | index {e key : Expr Span} {ts us : List Token} {left right next : Token}
      (he : Derives (.applied e) ts left) (hleft : left.lexeme = .symbol .leftBracket)
      (hkey : Derives (.expression key) us right)
      (hright : right.lexeme = .symbol .rightBracket) :
      Derives (.applied (.index (e.ann.join right.span) e key)) (ts ++ left :: (us ++ [right]))
        next
  | field {e : Expr Span} {ts : List Token} {dot member next : Token} {name : String}
      (he : Derives (.applied e) ts dot) (hdot : dot.lexeme = .symbol .dot)
      (hmember : member.lexeme = .identifier name) :
      Derives (.applied (.field (e.ann.join member.span) e name)) (ts ++ [dot, member]) next
  | notApplied {e : Expr Span} {ts : List Token} {next : Token}
      (h : Derives (.primary e) ts next) : Derives (.applied e) ts next
  | number {numeral : String} {value : Float} {t next : Token}
      (ht : t.lexeme = .number numeral) (hvalue : Numeral.read? numeral = some value) :
      Derives (.primary (.number t.span value)) [t] next
  | text {content : String} {t next : Token} (ht : t.lexeme = .quoted content) :
      Derives (.primary (.text t.span content)) [t] next
  | trueWord {t next : Token} (ht : t.lexeme = .keyword .trueWord) :
      Derives (.primary (.boolean t.span true)) [t] next
  | falseWord {t next : Token} (ht : t.lexeme = .keyword .falseWord) :
      Derives (.primary (.boolean t.span false)) [t] next
  | undefined {t next : Token} (ht : t.lexeme = .keyword .undefined) :
      Derives (.primary (.undefined t.span)) [t] next
  | var {name : String} {t next : Token} (ht : t.lexeme = .identifier name) :
      Derives (.primary (.var t.span name)) [t] next
  /-- Parentheses leave no trace in the tree but its span. -/
  | parens {e : Expr Span} {ts : List Token} {left right next : Token}
      (hleft : left.lexeme = .symbol .leftParen) (h : Derives (.expression e) ts right)
      (hright : right.lexeme = .symbol .rightParen) :
      Derives (.primary (e.setAnn (left.span.join right.span))) (left :: (ts ++ [right])) next
  | array {es : List (Expr Span)} {ts : List Token} {left right next : Token}
      (hleft : left.lexeme = .symbol .leftBracket)
      (h : Derives (.items .rightBracket es) ts right)
      (hright : right.lexeme = .symbol .rightBracket) :
      Derives (.primary (.array (left.span.join right.span) es)) (left :: (ts ++ [right])) next
  | map {es : List (String × Expr Span)} {ts : List Token} {left right next : Token}
      (hleft : left.lexeme = .symbol .leftBrace) (h : Derives (.entries es) ts right)
      (hright : right.lexeme = .symbol .rightBrace) :
      Derives (.primary (.map (left.span.join right.span) es)) (left :: (ts ++ [right])) next
  | lambda {params : List String} {body : List (Stmt Span)} {ts : List Token} {word next : Token}
      (hword : word.lexeme = .keyword .function) (h : Derives (.code params body) ts next) :
      Derives (.primary (.lambda (cover (word :: ts)) none params body)) (word :: ts) next
  | namedLambda {name : String} {params : List String} {body : List (Stmt Span)}
      {ts : List Token} {word label next : Token} (hword : word.lexeme = .keyword .function)
      (hlabel : label.lexeme = .identifier name) (h : Derives (.code params body) ts next) :
      Derives (.primary (.lambda (cover (word :: label :: ts)) (some name) params body))
        (word :: label :: ts) next
  | noItems {close : Symbol} {next : Token} (hclose : next.lexeme = .symbol close) :
      Derives (.items close []) [] next
  | oneItem {close : Symbol} {e : Expr Span} {ts : List Token} {next : Token}
      (h : Derives (.expression e) ts next) (hnext : next.lexeme ≠ .symbol .comma) :
      Derives (.items close [e]) ts next
  /-- A comma may stand after the last item: there may be no further ones. -/
  | moreItems {close : Symbol} {e : Expr Span} {es : List (Expr Span)} {ts us : List Token}
      {comma next : Token} (h : Derives (.expression e) ts comma)
      (hcomma : comma.lexeme = .symbol .comma) (hmore : Derives (.items close es) us next) :
      Derives (.items close (e :: es)) (ts ++ comma :: us) next
  | noEntries {next : Token} (hclose : next.lexeme = .symbol .rightBrace) :
      Derives (.entries []) [] next
  | oneEntry {name : String} {e : Expr Span} {ts : List Token} {key colon next : Token}
      (hkey : key.key? = some name) (hcolon : colon.lexeme = .symbol .colon)
      (h : Derives (.expression e) ts next) (hnext : next.lexeme ≠ .symbol .comma) :
      Derives (.entries [(name, e)]) (key :: colon :: ts) next
  | moreEntries {name : String} {e : Expr Span} {es : List (String × Expr Span)}
      {ts us : List Token} {key colon comma next : Token} (hkey : key.key? = some name)
      (hcolon : colon.lexeme = .symbol .colon) (h : Derives (.expression e) ts comma)
      (hcomma : comma.lexeme = .symbol .comma) (hmore : Derives (.entries es) us next) :
      Derives (.entries ((name, e) :: es)) (key :: colon :: (ts ++ comma :: us)) next
  | noParams {next : Token} (hclose : next.lexeme = .symbol .rightParen) :
      Derives (.params []) [] next
  | oneParam {name : String} {t next : Token} (ht : t.lexeme = .identifier name)
      (hnext : next.lexeme ≠ .symbol .comma) : Derives (.params [name]) [t] next
  /-- No comma may stand after the last parameter: there is a further one. -/
  | moreParams {name other : String} {names : List String} {ts : List Token}
      {t comma next : Token} (ht : t.lexeme = .identifier name)
      (hcomma : comma.lexeme = .symbol .comma)
      (hmore : Derives (.params (other :: names)) ts next) :
      Derives (.params (name :: other :: names)) (t :: comma :: ts) next
  | code {params : List String} {body : List (Stmt Span)} {ts us : List Token}
      {left right next : Token} (hleft : left.lexeme = .symbol .leftParen)
      (hparams : Derives (.params params) ts right) (hright : right.lexeme = .symbol .rightParen)
      (hbody : Derives (.block body) us next) :
      Derives (.code params body) (left :: (ts ++ right :: us)) next
  | noStatements {next : Token} (hend : EndsBlock next) : Derives (.statements []) [] next
  | moreStatements {s : Stmt Span} {body : List (Stmt Span)} {ts us : List Token} {next : Token}
      (h : Derives (.statement s) ts (us.headD next)) (hmore : Derives (.statements body) us next) :
      Derives (.statements (s :: body)) (ts ++ us) next
  | block {body : List (Stmt Span)} {ts : List Token} {left right next : Token}
      (hleft : left.lexeme = .symbol .leftBrace) (h : Derives (.statements body) ts right)
      (hright : right.lexeme = .symbol .rightBrace) :
      Derives (.block body) (left :: (ts ++ [right])) next
  | blockBranch {body : List (Stmt Span)} {ts : List Token} {next : Token}
      (h : Derives (.block body) ts next) : Derives (.branch body) ts next
  | singleBranch {s : Stmt Span} {ts : List Token} {next : Token}
      (h : Derives (.statement s) ts next) (hopen : opensBrace ts = false) :
      Derives (.branch [s]) ts next
  | bare {build : Span → Stmt Span} {ts : List Token} {next : Token}
      (h : Derives (.form build) ts next) (hnext : next.lexeme ≠ .symbol .semicolon) :
      Derives (.statement (build (cover ts))) ts next
  /-- A semicolon belongs to the statement in front of it, but not to its span. -/
  | ended {build : Span → Stmt Span} {ts : List Token} {mark next : Token}
      (h : Derives (.form build) ts mark) (hmark : mark.lexeme = .symbol .semicolon) :
      Derives (.statement (build (cover ts))) (ts ++ [mark]) next
  | letVar {name : String} {word label next : Token} (hword : word.lexeme = .keyword .letWord)
      (hlabel : label.lexeme = .identifier name) (hnext : next.lexeme ≠ .symbol .assign) :
      Derives (.form fun span => .letVar span name none) [word, label] next
  | letInit {name : String} {e : Expr Span} {ts : List Token} {word label mark next : Token}
      (hword : word.lexeme = .keyword .letWord) (hlabel : label.lexeme = .identifier name)
      (hmark : mark.lexeme = .symbol .assign) (h : Derives (.expression e) ts next) :
      Derives (.form fun span => .letVar span name (some e)) (word :: label :: mark :: ts) next
  | function {name : String} {params : List String} {body : List (Stmt Span)} {ts : List Token}
      {word label next : Token} (hword : word.lexeme = .keyword .function)
      (hlabel : label.lexeme = .identifier name) (h : Derives (.code params body) ts next) :
      Derives (.form fun span => .function span name params body) (word :: label :: ts) next
  /-- If there is no `else` for a branch to take, none follows. -/
  | ifThen {test : Expr Span} {yes : List (Stmt Span)} {ts us : List Token}
      {word left right next : Token} (hword : word.lexeme = .keyword .ifWord)
      (hleft : left.lexeme = .symbol .leftParen) (htest : Derives (.expression test) ts right)
      (hright : right.lexeme = .symbol .rightParen) (hyes : Derives (.branch yes) us next)
      (hnext : next.lexeme ≠ .keyword .elseWord) :
      Derives (.form fun span => .ifElse span test yes none)
        (word :: left :: (ts ++ right :: us)) next
  | ifElse {test : Expr Span} {yes no : List (Stmt Span)} {ts us vs : List Token}
      {word left right other next : Token} (hword : word.lexeme = .keyword .ifWord)
      (hleft : left.lexeme = .symbol .leftParen) (htest : Derives (.expression test) ts right)
      (hright : right.lexeme = .symbol .rightParen) (hyes : Derives (.branch yes) us other)
      (hother : other.lexeme = .keyword .elseWord) (hno : Derives (.branch no) vs next) :
      Derives (.form fun span => .ifElse span test yes (some no))
        (word :: left :: (ts ++ right :: (us ++ other :: vs))) next
  | whileLoop {test : Expr Span} {body : List (Stmt Span)} {ts us : List Token}
      {word left right next : Token} (hword : word.lexeme = .keyword .whileWord)
      (hleft : left.lexeme = .symbol .leftParen) (htest : Derives (.expression test) ts right)
      (hright : right.lexeme = .symbol .rightParen) (hbody : Derives (.branch body) us next) :
      Derives (.form fun span => .whileLoop span test body)
        (word :: left :: (ts ++ right :: us)) next
  | forEach {name : String} {e : Expr Span} {body : List (Stmt Span)} {ts us : List Token}
      {word left label within right next : Token} (hword : word.lexeme = .keyword .forWord)
      (hleft : left.lexeme = .symbol .leftParen) (hlabel : label.lexeme = .identifier name)
      (hwithin : within.lexeme = .keyword .inWord) (h : Derives (.expression e) ts right)
      (hright : right.lexeme = .symbol .rightParen) (hbody : Derives (.branch body) us next) :
      Derives (.form fun span => .forEach span name e body)
        (word :: left :: label :: within :: (ts ++ right :: us)) next
  | tryCatch {name : String} {body handler : List (Stmt Span)} {ts us : List Token}
      {word rescue left label right next : Token} (hword : word.lexeme = .keyword .tryWord)
      (hbody : Derives (.block body) ts rescue) (hrescue : rescue.lexeme = .keyword .catchWord)
      (hleft : left.lexeme = .symbol .leftParen) (hlabel : label.lexeme = .identifier name)
      (hright : right.lexeme = .symbol .rightParen) (hhandler : Derives (.block handler) us next) :
      Derives (.form fun span => .tryCatch span body name handler)
        (word :: (ts ++ rescue :: left :: label :: right :: us)) next
  | throw {e : Expr Span} {ts : List Token} {word next : Token}
      (hword : word.lexeme = .keyword .throwWord) (h : Derives (.expression e) ts next) :
      Derives (.form fun span => .throw span e) (word :: ts) next
  | ret {word next : Token} (hword : word.lexeme = .keyword .returnWord)
      (hnext : EndsStatement next) : Derives (.form fun span => .ret span none) [word] next
  | retValue {e : Expr Span} {ts : List Token} {word next : Token}
      (hword : word.lexeme = .keyword .returnWord) (h : Derives (.expression e) ts next) :
      Derives (.form fun span => .ret span (some e)) (word :: ts) next
  | brk {word next : Token} (hword : word.lexeme = .keyword .breakWord) :
      Derives (.form fun span => .brk span) [word] next
  | cont {word next : Token} (hword : word.lexeme = .keyword .continueWord) :
      Derives (.form fun span => .cont span) [word] next
  | blockForm {body : List (Stmt Span)} {ts : List Token} {next : Token}
      (h : Derives (.block body) ts next) : Derives (.form fun span => .block span body) ts next
  /-- An expression as a statement must not look like a block or a declaration. -/
  | exprForm {e : Expr Span} {ts : List Token} {next : Token}
      (h : Derives (.expression e) ts next) (hblock : opensBlock ts = false)
      (hdeclaration : opensDeclaration ts = false) :
      Derives (.form fun span => .expr span e) ts next

/-- No binary operator binds as tightly as the operators with one operand. -/
theorem noOperator_unaryLevel (t : Token) : NoOperator unaryLevel t := by
  intro op hop
  exact absurd hop (Nat.ne_of_lt op.level_lt_unaryLevel)

/-- Whether a phrase has at least one token. -/
def Phrase.solid : Phrase → Bool
  | items _ _ | entries _ | params _ | statements _ => false
  | _ => true

theorem Derives.ne_nil {phrase : Phrase} {ts : List Token} {next : Token}
    (h : Derives phrase ts next) (hsolid : phrase.solid = true) : ts ≠ [] := by
  induction h <;> simp_all [Phrase.solid]

end Grammar

end Script
