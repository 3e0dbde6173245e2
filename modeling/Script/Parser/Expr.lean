import Script.Number.Numeral
import Script.Parser.Basic
import Script.Tree.Basic

/-!
# Parsing expressions

One parser per level of binding strength.  Each level is written in terms of the level below and,
where the grammar is recursive, in terms of two parsers that are given to it: `expr` for a whole
expression and `body` for the statements of a function.  `rounds` bounds the loops.
-/

namespace Script.Parser

/-- The operators of each level of binding strength, the loosest level first. -/
def binaryLevels : List (List (Symbol × BinaryOp)) :=
  [ [(.bothOr, .or)],
    [(.bothAnd, .and)],
    [(.equalEqual, .equal), (.bangEqual, .notEqual)],
    [(.less, .less), (.lessEqual, .lessEqual), (.greater, .greater),
      (.greaterEqual, .greaterEqual)],
    [(.plus, .add), (.minus, .sub)],
    [(.star, .mul), (.slash, .div), (.percent, .mod)] ]

/-- The operator of a level that a token is, if it is one. -/
def operator? (level : List (Symbol × BinaryOp)) (token : Token) : Option BinaryOp :=
  match token.lexeme with
  | .symbol mark => level.lookup mark
  | _ => none

/-- The operator with one operand that a token is, if it is one. -/
def unaryOperator? (token : Token) : Option UnaryOp :=
  match token.lexeme with
  | .symbol .minus => some .negate
  | .symbol .bang => some .not
  | _ => none

/-- Further operands of a level, grouped to the left. -/
def binaryRest (level : List (Symbol × BinaryOp)) (operand : Parser (Expr Span)) :
    (rounds : Nat) → Expr Span → Parser (Expr Span)
  | 0, _ => fail .tooDeep
  | rounds + 1, left => do
    match operator? level (← peek) with
    | none => return left
    | some op =>
      let _ ← advance
      let right ← operand
      binaryRest level operand rounds (.binary (left.ann.join right.ann) op left right)

/-- An expression of a level: operands of the level below, with the operators of the level between
them. -/
def binaryLevel (rounds : Nat) (level : List (Symbol × BinaryOp)) (operand : Parser (Expr Span)) :
    Parser (Expr Span) := do
  let left ← operand
  binaryRest level operand rounds left

/-- Operators with one operand, and then the operand. -/
def unary (operand : Parser (Expr Span)) : (rounds : Nat) → Parser (Expr Span)
  | 0 => fail .tooDeep
  | rounds + 1 => do
    match unaryOperator? (← peek) with
    | none => operand
    | some op =>
      let token ← advance
      let right ← unary operand rounds
      return .unary (token.span.join right.ann) op right

/-- Parameter names with commas between them.  None may stand after the last. -/
def parameterNames : (rounds : Nat) → Parser (List String)
  | 0 => fail .tooDeep
  | rounds + 1 => do
    let (first, _) ← identifier .parameterName
    if ← accept .comma then
      let rest ← parameterNames rounds
      return first :: rest
    else
      return [first]

/-- The parameters of a function, of which there may be none. -/
def parameters (rounds : Nat) : Parser (List String) := do
  if (← peek).isSymbol .rightParen then return [] else parameterNames rounds

/-- The parameters and the body of a function. -/
def functionRest (rounds : Nat) (body : Parser (List (Stmt Span))) :
    Parser (List String × List (Stmt Span)) := do
  let _ ← expect .leftParen .openParameters
  let params ← parameters rounds
  let _ ← expect .rightParen .closeParameters
  let statements ← body
  return (params, statements)

/-- A key, a colon and a value. -/
def mapEntry (expr : Parser (Expr Span)) : Parser (String × Expr Span) := do
  let token ← advance
  match token.key? with
  | none => failAt .mapKey token
  | some key =>
    let _ ← expect .colon .colonAfterKey
    let value ← expr
    return (key, value)

/-- The name of a function literal, if it has one. -/
def literalName : Parser (Option String) := do
  if (← peek).isIdentifier then
    let (name, _) ← identifier .functionName
    return some name
  else
    return none

/-- A literal, a name, an expression in parentheses, or a function. -/
def primary (rounds : Nat) (expr : Parser (Expr Span)) (body : Parser (List (Stmt Span))) :
    Parser (Expr Span) := do
  let token ← peek
  match token.lexeme with
  | .number numeral =>
    let _ ← advance
    match Numeral.read? numeral with
    | some value => return .number token.span value
    | none => failAt .malformedNumeral token
  | .quoted content =>
    let _ ← advance
    return .text token.span content
  | .keyword .trueWord =>
    let _ ← advance
    return .boolean token.span true
  | .keyword .falseWord =>
    let _ ← advance
    return .boolean token.span false
  | .keyword .undefined =>
    let _ ← advance
    return .undefined token.span
  | .identifier name =>
    let _ ← advance
    return .var token.span name
  | .symbol .leftParen =>
    let _ ← advance
    let inner ← expr
    let close ← expect .rightParen .closeParenthesis
    return inner.setAnn (token.span.join close.span)
  | .symbol .leftBracket =>
    let _ ← advance
    let elements ← items .rightBracket expr rounds
    let close ← expect .rightBracket .closeArray
    return .array (token.span.join close.span) elements
  | .symbol .leftBrace =>
    let _ ← advance
    let entries ← items .rightBrace (mapEntry expr) rounds
    let close ← expect .rightBrace .closeMap
    return .map (token.span.join close.span) entries
  | .keyword .function =>
    let _ ← advance
    let name ← literalName
    let (params, statements) ← functionRest rounds body
    return .lambda (← spanFrom token.span.start) name params statements
  | .endOfInput => fail .endOfInput
  | _ => fail .noExpression

/-- Arguments, indices and member names after an expression, grouped to the left. -/
def postfixRest (expr : Parser (Expr Span)) : (rounds : Nat) → Expr Span → Parser (Expr Span)
  | 0, _ => fail .tooDeep
  | rounds + 1, left => do
    match (← peek).lexeme with
    | .symbol .leftParen =>
      let _ ← advance
      let args ← items .rightParen expr rounds
      let close ← expect .rightParen .closeArguments
      postfixRest expr rounds (.call (left.ann.join close.span) left args)
    | .symbol .leftBracket =>
      let _ ← advance
      let key ← expr
      let close ← expect .rightBracket .closeIndex
      postfixRest expr rounds (.index (left.ann.join close.span) left key)
    | .symbol .dot =>
      let _ ← advance
      let (name, span) ← identifier .memberName
      postfixRest expr rounds (.field (left.ann.join span) left name)
    | _ => return left

/-- A primary expression with what is applied to it. -/
def applied (rounds : Nat) (expr : Parser (Expr Span)) (body : Parser (List (Stmt Span))) :
    Parser (Expr Span) := do
  let head ← primary rounds expr body
  postfixRest expr rounds head

/-- An expression without assignment: the levels of binding strength, one inside the other. -/
def operation (rounds : Nat) (expr : Parser (Expr Span)) (body : Parser (List (Stmt Span))) :
    Parser (Expr Span) :=
  binaryLevels.foldr (binaryLevel rounds) (unary (applied rounds expr body) rounds)

/-- An expression: an operation, or an assignment to one that is a place.  Assignments group to the
right.  Whether the left side is a place is checked after the right side has been read. -/
def assignment (rounds : Nat) (expr : Parser (Expr Span)) (body : Parser (List (Stmt Span))) :
    Parser (Expr Span) := do
  let left ← operation rounds expr body
  let token ← peek
  if token.isSymbol .assign then
    let _ ← advance
    let value ← expr
    match left.toTarget? with
    | some target => return .assign (left.ann.join value.ann) target value
    | none => failAt .assignmentTarget token
  else
    return left

end Script.Parser
