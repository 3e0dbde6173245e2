import Script.Span
import Script.Text.Quoted

/-!
# Tokens

A source text is read as a sequence of tokens: names, numerals, quoted texts, keywords and symbols,
and one mark for the end of the input.

## Main definitions

* `Keyword`, `Symbol`: the fixed words of the language, each with its spelling.
* `Lexeme`: what a token says, apart from where it stands.
* `Token`: a lexeme with its span.
-/

namespace Script

/-- The reserved words. -/
inductive Keyword where
  | letWord
  | function
  | ifWord
  | elseWord
  | whileWord
  | forWord
  | inWord
  | returnWord
  | breakWord
  | continueWord
  | throwWord
  | tryWord
  | catchWord
  | trueWord
  | falseWord
  | undefined
  deriving DecidableEq, Repr

namespace Keyword

/-- The spelling of a keyword. -/
def text : Keyword → String
  | letWord => "let"
  | function => "function"
  | ifWord => "if"
  | elseWord => "else"
  | whileWord => "while"
  | forWord => "for"
  | inWord => "in"
  | returnWord => "return"
  | breakWord => "break"
  | continueWord => "continue"
  | throwWord => "throw"
  | tryWord => "try"
  | catchWord => "catch"
  | trueWord => "true"
  | falseWord => "false"
  | undefined => "undefined"

/-- Every keyword, each once. -/
def all : List Keyword :=
  [letWord, function, ifWord, elseWord, whileWord, forWord, inWord, returnWord, breakWord,
    continueWord, throwWord, tryWord, catchWord, trueWord, falseWord, undefined]

/-- The keyword with the given spelling, if there is one. -/
def ofText? (s : String) : Option Keyword := all.find? fun k => k.text = s

theorem ofText?_text (k : Keyword) : ofText? k.text = some k := by cases k <;> decide

theorem text_of_ofText? {s : String} {k : Keyword} (h : ofText? s = some k) : k.text = s := by
  simpa using List.find?_some h

end Keyword

/-- Punctuation and operators. -/
inductive Symbol where
  | leftParen
  | rightParen
  | leftBrace
  | rightBrace
  | leftBracket
  | rightBracket
  | comma
  | dot
  | colon
  | semicolon
  | assign
  | plus
  | minus
  | star
  | slash
  | percent
  | bothAnd
  | bothOr
  | bang
  | bangEqual
  | equalEqual
  | less
  | lessEqual
  | greater
  | greaterEqual
  deriving DecidableEq, Repr

namespace Symbol

/-- The spelling of a symbol. -/
def text : Symbol → String
  | leftParen => "("
  | rightParen => ")"
  | leftBrace => "\x7b"
  | rightBrace => "\x7d"
  | leftBracket => "["
  | rightBracket => "]"
  | comma => ","
  | dot => "."
  | colon => ":"
  | semicolon => ";"
  | assign => "="
  | plus => "+"
  | minus => "-"
  | star => "*"
  | slash => "/"
  | percent => "%"
  | bothAnd => "&&"
  | bothOr => "||"
  | bang => "!"
  | bangEqual => "!="
  | equalEqual => "=="
  | less => "<"
  | lessEqual => "<="
  | greater => ">"
  | greaterEqual => ">="

end Symbol

/-- What a token says.  A quoted text is held with its escapes resolved. -/
inductive Lexeme where
  | identifier (name : String)
  | number (numeral : String)
  | quoted (content : String)
  | keyword (word : Keyword)
  | symbol (mark : Symbol)
  | endOfInput
  deriving DecidableEq, Repr

namespace Lexeme

/-- The text of a lexeme: its spelling, except that a quoted text stands without quotes and
escapes and the end of the input is empty. -/
def text : Lexeme → String
  | identifier name => name
  | number numeral => numeral
  | quoted content => content
  | keyword word => word.text
  | symbol mark => mark.text
  | endOfInput => ""

/-- A word is a keyword if it is reserved, and an identifier otherwise. -/
def ofWord (s : String) : Lexeme :=
  match Keyword.ofText? s with
  | some k => keyword k
  | none => identifier s

end Lexeme

/-- A lexeme together with the place where it was read. -/
structure Token where
  lexeme : Lexeme
  span : Span
  deriving DecidableEq, Repr

namespace Token

/-- The token that marks the end of a text of `n` characters. -/
def endAt (n : Nat) : Token := ⟨.endOfInput, ⟨n, n⟩⟩

/-- The same token after `k` characters have been put in front of the text. -/
def shift (k : Nat) (t : Token) : Token := ⟨t.lexeme, t.span.shift k⟩

/-- A token as diagnostics write it. -/
def describe (t : Token) : String :=
  match t.lexeme with
  | .endOfInput => "<end of input>"
  | .quoted content => Text.quote content
  | lexeme => "`" ++ lexeme.text ++ "`"

/-- Whether the token is the given symbol. -/
def isSymbol (t : Token) (s : Symbol) : Bool := t.lexeme = .symbol s

/-- Whether the token is the given keyword. -/
def isKeyword (t : Token) (k : Keyword) : Bool := t.lexeme = .keyword k

/-- Whether the token is an identifier. -/
def isIdentifier (t : Token) : Bool :=
  match t.lexeme with
  | .identifier _ => true
  | _ => false

/-- Whether the token marks the end of the input. -/
def isEnd (t : Token) : Bool := t.lexeme = .endOfInput

/-- The name, if the token can stand as the key of a map entry: an identifier or a quoted text. -/
def key? (t : Token) : Option String :=
  match t.lexeme with
  | .identifier name => some name
  | .quoted content => some content
  | _ => none

end Token

end Script
