import Script.Parser.Expr

/-!
# Parsing statements

As for expressions, each form of statement is written in terms of two parsers that are given to it,
`expr` and `stmt`.  `expression` and `statement` tie the knot: they parse trees up to a given depth
of nesting.  Every level of nesting consumes a token, so a depth of twice the number of tokens is
never reached.

## Main definitions

* `Parser.expression`, `Parser.statement`: expressions and statements up to a depth.
* `TokenStream.parseNext`: the next statement of a stream.
-/

namespace Script

namespace Parser

/-- Whether a token ends a statement. -/
def endsStatement (token : Token) : Bool :=
  token.isSymbol .semicolon || token.isSymbol .rightBrace || token.isEnd

/-- Statements up to a closing brace or the end of the input. -/
def statements (stmt : Parser (Stmt Span)) : (rounds : Nat) → Parser (List (Stmt Span))
  | 0 => fail .tooDeep
  | rounds + 1 => do
    let token ← peek
    if token.isSymbol .rightBrace || token.isEnd then return []
    let first ← stmt
    let rest ← statements stmt rounds
    return first :: rest

/-- Statements in braces. -/
def block (rounds : Nat) (stmt : Parser (Stmt Span)) : Parser (List (Stmt Span)) := do
  let _ ← expect .leftBrace .openBlock
  let body ← statements stmt rounds
  let _ ← expect .rightBrace .closeBlock
  return body

/-- A block, or a single statement. -/
def branch (rounds : Nat) (stmt : Parser (Stmt Span)) : Parser (List (Stmt Span)) := do
  if (← peek).isSymbol .leftBrace then block rounds stmt
  else
    let single ← stmt
    return [single]

/-- An expression in parentheses. -/
def condition (expr : Parser (Expr Span)) : Parser (Expr Span) := do
  let _ ← expect .leftParen .openCondition
  let value ← expr
  let _ ← expect .rightParen .closeCondition
  return value

/-- Whether the braces that begin here enclose map entries: a key and a colon follow. -/
def startsMap : Parser Bool := do
  let first ← peekNth 1
  let second ← peekNth 2
  return first.key?.isSome && second.isSymbol .colon

/-- A statement whose annotation is still open. -/
abbrev Unplaced := Span → Stmt Span

/-- A declaration of a variable, with or without a value. -/
def letStatement (expr : Parser (Expr Span)) : Parser Unplaced := do
  let _ ← expectKeyword .letWord
  let (name, _) ← identifier .variableName
  if ← accept .assign then
    let value ← expr
    return fun span => .letVar span name (some value)
  else
    return fun span => .letVar span name none

/-- A declaration of a function. -/
def functionStatement (rounds : Nat) (stmt : Parser (Stmt Span)) : Parser Unplaced := do
  let _ ← expectKeyword .function
  let (name, _) ← identifier .functionName
  let (params, body) ← functionRest rounds (block rounds stmt)
  return fun span => .function span name params body

/-- A choice between two branches, the second of which may be missing. -/
def ifStatement (rounds : Nat) (expr : Parser (Expr Span)) (stmt : Parser (Stmt Span)) :
    Parser Unplaced := do
  let _ ← expectKeyword .ifWord
  let test ← condition expr
  let yes ← branch rounds stmt
  if ← acceptKeyword .elseWord then
    let no ← branch rounds stmt
    return fun span => .ifElse span test yes (some no)
  else
    return fun span => .ifElse span test yes none

/-- A loop with a condition. -/
def whileStatement (rounds : Nat) (expr : Parser (Expr Span)) (stmt : Parser (Stmt Span)) :
    Parser Unplaced := do
  let _ ← expectKeyword .whileWord
  let test ← condition expr
  let body ← branch rounds stmt
  return fun span => .whileLoop span test body

/-- A loop over the items of a value. -/
def forStatement (rounds : Nat) (expr : Parser (Expr Span)) (stmt : Parser (Stmt Span)) :
    Parser Unplaced := do
  let _ ← expectKeyword .forWord
  let _ ← expect .leftParen .openLoop
  let (name, _) ← identifier .loopVariable
  let _ ← expectKeyword .inWord
  let value ← expr
  let _ ← expect .rightParen .closeLoop
  let body ← branch rounds stmt
  return fun span => .forEach span name value body

/-- A block and a handler for what it raises. -/
def tryStatement (rounds : Nat) (stmt : Parser (Stmt Span)) : Parser Unplaced := do
  let _ ← expectKeyword .tryWord
  let body ← block rounds stmt
  let _ ← expectKeyword .catchWord
  let _ ← expect .leftParen .openCatch
  let (name, _) ← identifier .caughtName
  let _ ← expect .rightParen .closeCatch
  let handler ← block rounds stmt
  return fun span => .tryCatch span body name handler

/-- A statement that raises a value. -/
def throwStatement (expr : Parser (Expr Span)) : Parser Unplaced := do
  let _ ← expectKeyword .throwWord
  let value ← expr
  return fun span => .throw span value

/-- A statement that leaves a function, with or without a value. -/
def returnStatement (expr : Parser (Expr Span)) : Parser Unplaced := do
  let _ ← expectKeyword .returnWord
  if endsStatement (← peek) then return fun span => .ret span none
  else
    let value ← expr
    return fun span => .ret span (some value)

/-- An expression as a statement. -/
def expressionStatement (expr : Parser (Expr Span)) : Parser Unplaced := do
  let value ← expr
  return fun span => .expr span value

/-- The form of statement that the next tokens begin. -/
def statementForm (rounds : Nat) (expr : Parser (Expr Span)) (stmt : Parser (Stmt Span)) :
    Parser Unplaced := do
  match (← peek).lexeme with
  | .keyword .letWord => letStatement expr
  | .keyword .function =>
    if (← peekNth 1).isIdentifier then functionStatement rounds stmt else expressionStatement expr
  | .keyword .ifWord => ifStatement rounds expr stmt
  | .keyword .whileWord => whileStatement rounds expr stmt
  | .keyword .forWord => forStatement rounds expr stmt
  | .keyword .tryWord => tryStatement rounds stmt
  | .keyword .throwWord => throwStatement expr
  | .keyword .returnWord => returnStatement expr
  | .keyword .breakWord => do
    let _ ← advance
    return fun span => .brk span
  | .keyword .continueWord => do
    let _ ← advance
    return fun span => .cont span
  | .symbol .leftBrace => do
    if ← startsMap then expressionStatement expr
    else
      let body ← block rounds stmt
      return fun span => .block span body
  | _ => expressionStatement expr

/-- A statement and the semicolon after it, if there is one.  The semicolon is not in its span. -/
def placedStatement (rounds : Nat) (expr : Parser (Expr Span)) (stmt : Parser (Stmt Span)) :
    Parser (Stmt Span) := do
  let first ← peek
  let form ← statementForm rounds expr stmt
  let span ← spanFrom first.span.start
  let _ ← accept .semicolon
  return form span

mutual

/-- An expression whose nesting is below the given depth. -/
def expression : (depth : Nat) → Parser (Expr Span)
  | 0 => fail .tooDeep
  | depth + 1 => assignment depth (expression depth) (block depth (statement depth))

/-- A statement whose nesting is below the given depth. -/
def statement : (depth : Nat) → Parser (Stmt Span)
  | 0 => fail .tooDeep
  | depth + 1 => placedStatement depth (expression depth) (statement depth)

end

end Parser

/-- The number of tokens ahead of the current one. -/
def TokenStream.remaining (s : TokenStream) : Nat := s.ahead.length

/-- A depth of nesting that no statement in the rest of the stream reaches. -/
def TokenStream.depthBound (s : TokenStream) : Nat := 2 * s.remaining + 4

/-- The next statement of a stream, and the stream after it. -/
def TokenStream.parseNext (s : TokenStream) : Except ParseError (Stmt Span) × TokenStream :=
  match Parser.statement s.depthBound s with
  | .ok stmt s' => (.ok stmt, s')
  | .error e s' => (.error e, s')

end Script
