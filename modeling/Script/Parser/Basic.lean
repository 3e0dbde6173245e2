import Script.Parser.Error
import Script.Token.Stream

/-!
# Parsing by moving through a stream

A parser moves forward through a token stream and yields a result or an error.  The stream is left
where the parser stopped, also after an error.

Loops have a bound on their number of rounds.  Each round consumes a token, so a bound by the number
of tokens is never reached.
-/

namespace Script

/-- A parser for results of type `α`. -/
abbrev Parser (α : Type) := EStateM ParseError TokenStream α

namespace Parser

variable {α : Type}

/-- The current token. -/
def peek : Parser Token := fun s => .ok s.peek s

/-- The token `n` places ahead. -/
def peekNth (n : Nat) : Parser Token := fun s => .ok (s.peekNth n) s

/-- The current token, moving past it. -/
def advance : Parser Token := fun s => .ok s.peek s.advance

/-- Fails at the given token. -/
def failAt (cause : ParseError.Cause) (token : Token) : Parser α := fun s => .error ⟨cause, token⟩ s

/-- Fails at the current token. -/
def fail (cause : ParseError.Cause) : Parser α := fun s => .error ⟨cause, s.peek⟩ s

/-- Moves past the given symbol if it is next, and says whether it was. -/
def accept (mark : Symbol) : Parser Bool := do
  if (← peek).isSymbol mark then
    let _ ← advance
    return true
  else
    return false

/-- Moves past the given keyword if it is next, and says whether it was. -/
def acceptKeyword (word : Keyword) : Parser Bool := do
  if (← peek).isKeyword word then
    let _ ← advance
    return true
  else
    return false

/-- Moves past the given symbol, which must be next. -/
def expect (mark : Symbol) (cause : ParseError.Cause) : Parser Token := do
  if (← peek).isSymbol mark then advance else fail cause

/-- Moves past the given keyword, which must be next. -/
def expectKeyword (word : Keyword) : Parser Token := do
  if (← peek).isKeyword word then advance else fail (.keyword word)

/-- Moves past an identifier, which must be next, and yields its name and span. -/
def identifier (cause : ParseError.Cause) : Parser (String × Span) := do
  let token ← peek
  match token.lexeme with
  | .identifier name =>
    let _ ← advance
    return (name, token.span)
  | _ => fail cause

/-- The span from `start` to the end of the last token that was passed. -/
def spanFrom (start : Nat) : Parser Span := fun s =>
  let stop :=
    match s.previous? with
    | some token => token.span.stop
    | none => start
  .ok ⟨start, max stop start⟩ s

/-- Items with commas between them, up to the closing symbol.  A comma may stand after the last. -/
def items (close : Symbol) (item : Parser α) : (rounds : Nat) → Parser (List α)
  | 0 => fail .tooDeep
  | rounds + 1 => do
    if (← peek).isSymbol close then return []
    let first ← item
    if ← accept .comma then
      let rest ← items close item rounds
      return first :: rest
    else
      return [first]

end Parser

end Script
