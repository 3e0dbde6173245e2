import Script.Token.Lexer

/-!
# Streams of tokens

A stream is a sequence of tokens with a place in it.  It is held as the tokens behind that place,
the token at it and the tokens ahead, so there always is a current token, and no position can lie
outside the sequence.  Moving forward stops at the end mark.
-/

namespace Script

/-- A non-empty sequence of tokens with a current one.  `behind` has the nearest token first. -/
structure TokenStream where
  behind : List Token
  here : Token
  ahead : List Token
  deriving DecidableEq, Repr

namespace TokenStream

/-- The stream that reads `tokens` and then `last`. -/
def ofTokens (tokens : List Token) (last : Token) : TokenStream :=
  match tokens with
  | [] => ⟨[], last, []⟩
  | t :: rest => ⟨[], t, rest ++ [last]⟩

/-- All tokens, wherever the stream stands. -/
def toList (s : TokenStream) : List Token := s.behind.reverse ++ s.here :: s.ahead

/-- The number of tokens, the end mark included. -/
def length (s : TokenStream) : Nat := s.behind.length + 1 + s.ahead.length

/-- The number of tokens behind the current one. -/
def position (s : TokenStream) : Nat := s.behind.length

/-- The current token. -/
def peek (s : TokenStream) : Token := s.here

/-- The token `n` places ahead, or the last one if there are not so many. -/
def peekNth (s : TokenStream) (n : Nat) : Token :=
  match n with
  | 0 => s.here
  | n + 1 => s.ahead.getD n (s.ahead.getLastD s.here)

/-- The token just behind the current one. -/
def previous? (s : TokenStream) : Option Token := s.behind.head?

/-- The stream one token further on.  It stays where it is at the end mark.  It would also stay if
nothing were ahead, but that does not happen on a closed stream, where something is ahead of every
token but the end mark (`TokenStream.passes_advance`). -/
def advance (s : TokenStream) : TokenStream :=
  if s.here.isEnd then s
  else
    match s.ahead with
    | [] => s
    | t :: rest => ⟨s.here :: s.behind, t, rest⟩

/-- Whether a token other than the end mark is left. -/
def hasRemaining (s : TokenStream) : Bool := !s.here.isEnd

/-- The tokens of a source text, from the first one on. -/
def ofSource (source : String) : Except LexError TokenStream := do
  let tokens ← Lexer.scan source.toList
  .ok (.ofTokens tokens (.endAt source.length))

end TokenStream

end Script
