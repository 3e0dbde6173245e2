import Script.Text.Blank
import Script.Token.Basic

/-!
# Reading tokens

A text is read one character at a time by a machine whose `Mode` says what the characters since the
last finished token amount to.  A character either continues what was begun, or ends it and begins
something new.  No lookahead is needed: where one character does not decide (a point after digits, a
slash, the first half of a two-character operator), the mode remembers that it is undecided.

## Main definitions

* `Lexer.Mode`: what has been read since the last finished token.
* `Lexer.Mode.extend?`: how a character continues a mode, if it does.
* `Lexer.Mode.close`: what a mode amounts to when nothing continues it.
* `Lexer.step`, `Lexer.scan`: the machine, on one character and on a text.
* `tokenize`: the tokens of a source text, with the end mark.
-/

namespace Script

/-- What is wrong with a text that has no tokens. -/
inductive LexError.Cause where
  | unexpectedCharacter (c : Char)
  | unterminatedText
  | unterminatedComment
  deriving DecidableEq, Repr

/-- A text that cannot be read: the cause, and the index of the character that it is charged to. -/
structure LexError where
  cause : LexError.Cause
  index : Nat
  deriving DecidableEq, Repr

/-- The wording of each cause. -/
def LexError.Cause.message : LexError.Cause → String
  | unexpectedCharacter c => "Unexpected character '" ++ c.toString ++ "'"
  | unterminatedText => "Unterminated string literal"
  | unterminatedComment => "Unterminated block comment"

/-- The wording of an error, without its place. -/
def LexError.message (e : LexError) : String := e.cause.message

namespace Lexer

/-- The characters that can begin a word. -/
def isWordStart (c : Char) : Bool := c.isAlpha || c = '_'

/-- The characters that can continue a word. -/
def isWordPart (c : Char) : Bool := c.isAlphanum || c = '_'

/-- The two characters that can enclose a quoted text. -/
def isQuote (c : Char) : Bool := c = '\x22' || c = '\x27'

/-- The characters that are a symbol by themselves, whatever follows. -/
def soleSymbol? (c : Char) : Option Symbol :=
  match c with
  | '(' => some .leftParen
  | ')' => some .rightParen
  | '\x7b' => some .leftBrace
  | '\x7d' => some .rightBrace
  | '[' => some .leftBracket
  | ']' => some .rightBracket
  | ',' => some .comma
  | '.' => some .dot
  | ':' => some .colon
  | ';' => some .semicolon
  | '+' => some .plus
  | '-' => some .minus
  | '*' => some .star
  | '%' => some .percent
  | _ => none

/-- The characters that can begin a symbol of two characters, the slash apart. -/
inductive Lead where
  | equals
  | bang
  | less
  | greater
  | ampersand
  | bar
  deriving DecidableEq, Repr

namespace Lead

/-- The character that a lead stands for. -/
def char : Lead → Char
  | equals => '='
  | bang => '!'
  | less => '<'
  | greater => '>'
  | ampersand => '&'
  | bar => '|'

/-- The lead that a character is, if it is one. -/
def ofChar? (c : Char) : Option Lead :=
  match c with
  | '=' => some equals
  | '!' => some bang
  | '<' => some less
  | '>' => some greater
  | '&' => some ampersand
  | '|' => some bar
  | _ => none

/-- The symbol that a lead is when nothing completes it.  A single `&` or `|` is none. -/
def alone? : Lead → Option Symbol
  | equals => some .assign
  | bang => some .bang
  | less => some .less
  | greater => some .greater
  | ampersand => none
  | bar => none

/-- The symbol that a lead and the character after it make together, if they do. -/
def pair? (l : Lead) (c : Char) : Option Symbol :=
  match l, c with
  | equals, '=' => some .equalEqual
  | bang, '=' => some .bangEqual
  | less, '=' => some .lessEqual
  | greater, '=' => some .greaterEqual
  | ampersand, '&' => some .bothAnd
  | bar, '|' => some .bothOr
  | _, _ => none

end Lead

/-- Inside a block comment, the last character may be half of an opening or closing mark. -/
inductive Hinge where
  | none
  | slash
  | star
  deriving DecidableEq, Repr

/-- What has been read since the last finished token.  `start` is the index of its first character,
and `read` holds the characters of its lexeme so far, the last one first. -/
inductive Mode where
  /-- Nothing but blanks and comments. -/
  | gap
  /-- A word. -/
  | word (start : Nat) (read : List Char)
  /-- Digits without a point. -/
  | digits (start : Nat) (read : List Char)
  /-- Digits and a point, which belongs to the numeral only if a digit follows. -/
  | point (start : Nat) (read : List Char)
  /-- Digits, a point and at least one digit. -/
  | fraction (start : Nat) (read : List Char)
  /-- A quoted text that is still open. -/
  | quoted (start : Nat) (quote : Char) (read : List Char)
  /-- A quoted text that is still open, after a backslash. -/
  | escaped (start : Nat) (quote : Char) (read : List Char)
  /-- A slash, which may turn out to begin a comment. -/
  | slash (start : Nat)
  /-- The rest of a line after two slashes. -/
  | lineComment
  /-- A block comment with `depth + 1` marks still open. -/
  | blockComment (start : Nat) (depth : Nat) (hinge : Hinge)
  /-- The first character of a symbol that may have two. -/
  | lead (start : Nat) (first : Lead)
  deriving DecidableEq, Repr

/-- The text that `read`, which holds its last character first, spells. -/
def spell (read : List Char) : String := String.ofList read.reverse

/-- The character that a backslash and `c` stand for. -/
def unescape (c : Char) : Char :=
  match c with
  | 'n' => '\n'
  | 'r' => '\r'
  | 't' => '\t'
  | c => c

/-- How the character `c` acts inside a block comment that opened at `start`.  Opening and closing
marks are read from left to right, and none of them share a character. -/
def stepComment (start depth : Nat) (hinge : Hinge) (c : Char) : Mode :=
  match hinge, c with
  | .slash, '*' => .blockComment start (depth + 1) .none
  | .star, '/' =>
    match depth with
    | 0 => .gap
    | depth + 1 => .blockComment start depth .none
  | _, '/' => .blockComment start depth .slash
  | _, '*' => .blockComment start depth .star
  | _, _ => .blockComment start depth .none

namespace Mode

/-- What the character `c` at index `i` makes of a mode that it continues: the tokens that it
completes, and the mode after it.  The answer is `none` if `c` is no part of what was begun. -/
def extend? (mode : Mode) (i : Nat) (c : Char) : Option (List Token × Mode) :=
  match mode with
  | gap => none
  | word start read => if isWordPart c then some ([], word start (c :: read)) else none
  | digits start read =>
    if c.isDigit then some ([], digits start (c :: read))
    else if c = '.' then some ([], point start read)
    else none
  | point start read => if c.isDigit then some ([], fraction start (c :: '.' :: read)) else none
  | fraction start read => if c.isDigit then some ([], fraction start (c :: read)) else none
  | quoted start quote read =>
    if c = quote then some ([⟨.quoted (spell read), ⟨start, i + 1⟩⟩], gap)
    else if c = '\\' then some ([], escaped start quote read)
    else some ([], quoted start quote (c :: read))
  | escaped start quote read => some ([], quoted start quote (unescape c :: read))
  | slash start =>
    if c = '/' then some ([], lineComment)
    else if c = '*' then some ([], blockComment start 0 .none)
    else none
  | lineComment => if c = '\n' then none else some ([], lineComment)
  | blockComment start depth hinge => some ([], stepComment start depth hinge c)
  | lead start first =>
    match first.pair? c with
    | some mark => some ([⟨.symbol mark, ⟨start, i + 1⟩⟩], gap)
    | none => none

/-- What a mode amounts to if nothing continues it at index `i`. -/
def close (mode : Mode) (i : Nat) : Except LexError (List Token) :=
  match mode with
  | gap => .ok []
  | word start read => .ok [⟨.ofWord (spell read), ⟨start, i⟩⟩]
  | digits start read => .ok [⟨.number (spell read), ⟨start, i⟩⟩]
  | point start read =>
    .ok [⟨.number (spell read), ⟨start, i - 1⟩⟩, ⟨.symbol .dot, ⟨i - 1, i⟩⟩]
  | fraction start read => .ok [⟨.number (spell read), ⟨start, i⟩⟩]
  | quoted start _ _ => .error ⟨.unterminatedText, start⟩
  | escaped start _ _ => .error ⟨.unterminatedText, start⟩
  | slash start => .ok [⟨.symbol .slash, ⟨start, i⟩⟩]
  | lineComment => .ok []
  | blockComment start _ _ => .error ⟨.unterminatedComment, start⟩
  | lead start first =>
    match first.alone? with
    | some mark => .ok [⟨.symbol mark, ⟨start, i⟩⟩]
    | none => .error ⟨.unexpectedCharacter first.char, start⟩

end Mode

/-- What the character `c` at index `i` begins: the token that it is by itself, if it is one, and
the mode after it. -/
def begin (i : Nat) (c : Char) : Except LexError (List Token × Mode) :=
  if Text.isBlank c then .ok ([], .gap)
  else if isWordStart c then .ok ([], .word i [c])
  else if c.isDigit then .ok ([], .digits i [c])
  else if isQuote c then .ok ([], .quoted i c [])
  else if c = '/' then .ok ([], .slash i)
  else
    match Lead.ofChar? c with
    | some first => .ok ([], .lead i first)
    | none =>
      match soleSymbol? c with
      | some mark => .ok ([⟨.symbol mark, ⟨i, i + 1⟩⟩], .gap)
      | none => .error ⟨.unexpectedCharacter c, i⟩

end Lexer

/-- The state of the reading machine: the number of characters read, what the last of them amount
to, and the finished tokens, the last one first. -/
structure Lexer where
  index : Nat
  mode : Lexer.Mode
  done : List Token
  deriving DecidableEq, Repr

namespace Lexer

/-- The machine before the first character. -/
def start : Lexer := ⟨0, .gap, []⟩

/-- One character.  If it does not continue what was begun, it ends it and begins anew. -/
def step (l : Lexer) (c : Char) : Except LexError Lexer :=
  match l.mode.extend? l.index c with
  | some (tokens, mode) => .ok ⟨l.index + 1, mode, tokens.reverse ++ l.done⟩
  | none => do
    let ended ← l.mode.close l.index
    let (tokens, mode) ← begin l.index c
    .ok ⟨l.index + 1, mode, tokens.reverse ++ (ended.reverse ++ l.done)⟩

/-- All characters of a text in turn. -/
def feed (l : Lexer) (cs : List Char) : Except LexError Lexer := cs.foldlM step l

/-- The tokens, once there are no more characters. -/
def finish (l : Lexer) : Except LexError (List Token) := do
  let ended ← l.mode.close l.index
  .ok (l.done.reverse ++ ended)

/-- The tokens of a list of characters, without the end mark. -/
def scan (cs : List Char) : Except LexError (List Token) := do
  (← start.feed cs).finish

end Lexer

/-- The tokens of a source text, the last of them the end mark. -/
def tokenize (source : String) : Except LexError (List Token) := do
  let tokens ← Lexer.scan source.toList
  .ok (tokens ++ [.endAt source.length])

end Script
