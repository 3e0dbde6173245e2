import Script.Token.Basic

/-!
# Parse errors

What the parser expected and did not find.  An error carries the token that it is charged to.
-/

namespace Script

/-- Why a token sequence is no statement. -/
inductive ParseError.Cause where
  | variableName
  | functionName
  | parameterName
  | memberName
  | loopVariable
  | caughtName
  | mapKey
  | colonAfterKey
  | keyword (word : Keyword)
  | openCondition
  | closeCondition
  | openLoop
  | closeLoop
  | openCatch
  | closeCatch
  | openBlock
  | closeBlock
  | openParameters
  | closeParameters
  | closeArguments
  | closeIndex
  | closeParenthesis
  | closeArray
  | closeMap
  | assignmentTarget
  | malformedNumeral
  | endOfInput
  | noExpression
  | tooDeep
  deriving DecidableEq, Repr

/-- A token sequence that is no statement: the cause, and the token that it is charged to. -/
structure ParseError where
  cause : ParseError.Cause
  token : Token
  deriving DecidableEq, Repr

/-- The wording of each cause. -/
def ParseError.Cause.message : ParseError.Cause → String
  | variableName => "Expected variable name after 'let'"
  | functionName => "Expected function name"
  | parameterName => "Expected parameter name"
  | memberName => "Expected member name after '.'"
  | loopVariable => "Expected loop variable"
  | caughtName => "Expected name for caught value"
  | mapKey => "Expected map key"
  | colonAfterKey => "Expected ':' after map key"
  | keyword word => "Expected '" ++ word.text ++ "'"
  | openCondition => "Expected '(' before condition"
  | closeCondition => "Expected ')' after condition"
  | openLoop => "Expected '(' after 'for'"
  | closeLoop => "Expected ')' after loop iterable"
  | openCatch => "Expected '(' after 'catch'"
  | closeCatch => "Expected ')' after caught name"
  | openBlock => "Expected '\x7b' to start block"
  | closeBlock => "Expected '\x7d' to close block"
  | openParameters => "Expected '(' before parameters"
  | closeParameters => "Expected ')' after parameters"
  | closeArguments => "Expected ')' after arguments"
  | closeIndex => "Expected ']' after index"
  | closeParenthesis => "Expected ')' after expression"
  | closeArray => "Expected ']' after array elements"
  | closeMap => "Expected '\x7d' after map entries"
  | assignmentTarget => "Invalid assignment target"
  | malformedNumeral => "Malformed number literal"
  | endOfInput => "Unexpected end of input"
  | noExpression => "Unexpected token in expression"
  | tooDeep => "Expression nested too deeply"

/-- The wording of an error, without its place. -/
def ParseError.message (e : ParseError) : String := e.cause.message

end Script
