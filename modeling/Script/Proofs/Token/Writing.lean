import Script.Proofs.Token.Lossless

/-!
# Writing tokens

A list of lexemes is written with one blank between two of them.  A quoted text may stand in quotes
of either kind, each of the texts in its own: inside of them, that quote and the backslash are
escaped, and every other character stands for itself.  Whatever the lexemes are and in whatever
order they stand, reading gives them back: a blank completes every lexeme, and none of them reaches
over a blank except inside of its quotes.

## Main definitions

* `Writing`: a lexeme together with the way it is written.
* `Writing.text`: what is written for a list of lexemes.

## Main results

* `Writing.readsBack`: one written lexeme is read back.
* `Writing.tokenize_text`: a list of them is.
-/

namespace Script

/-- The ways to write a lexeme. -/
inductive Writing where
  | keyword (word : Keyword)
  | symbol (mark : Symbol)
  /-- A name, which is no keyword. -/
  | identifier (name : String) (isName : isName name = true)
  /-- Digits. -/
  | whole (digits : List Char) (isRun : Numeral.isRun digits = true)
  /-- Digits, a point and digits. -/
  | fraction (digits part : List Char) (isRun : Numeral.isRun digits = true)
      (isRun_part : Numeral.isRun part = true)
  /-- Any text, between quotes of one kind. -/
  | quoted (quote : Char) (isQuote : Lexer.isQuote quote = true) (content : String)

namespace Writing

/-- The lexeme that is written. -/
def lexeme : Writing → Lexeme
  | keyword word => .keyword word
  | symbol mark => .symbol mark
  | identifier name _ => .identifier name
  | whole digits _ => .number (String.ofList digits)
  | fraction digits part _ _ => .number (String.ofList (digits ++ '.' :: part))
  | quoted _ _ content => .quoted content

/-- The characters that are written. -/
def chars : Writing → List Char
  | keyword word => word.text.toList
  | symbol mark => mark.text.toList
  | identifier name _ => name.toList
  | whole digits _ => digits
  | fraction digits part _ _ => digits ++ '.' :: part
  | quoted quote _ content => quoteWith quote content

/-- The characters that are written, and the lexeme that they are written for. -/
def piece (w : Writing) : List Char × Lexeme := (w.chars, w.lexeme)

/-- What is written for a list of lexemes. -/
def text (ws : List Writing) : String := String.ofList ([' '].intercalate (ws.map chars))

/-- The tokens of a list of lexemes.  Each spans the characters that are written for its lexeme. -/
def tokens (ws : List Writing) : List Token := layoutOf 0 (ws.map piece)

theorem map_lexeme_tokens (ws : List Writing) : (tokens ws).map Token.lexeme = ws.map lexeme := by
  rw [tokens, map_lexeme_layoutOf, List.map_map]
  rfl

/-- A numeral is read back, given by its characters. -/
theorem readsBack_ofChars {cs : List Char} (h : (Numeral.ofChars? cs).isSome = true) :
    Lexer.ReadsBack cs (.number (String.ofList cs)) := by
  have hread : (Numeral.read? (String.ofList cs)).isSome = true := by
    rwa [Numeral.read?, String.toList_ofList]
  have hback := Lexer.readsBack_number hread
  rwa [String.toList_ofList] at hback

/-- **A written lexeme is read back**, whichever way it is written. -/
theorem readsBack (w : Writing) : Lexer.ReadsBack w.chars w.lexeme := by
  cases w with
  | keyword word => exact Lexer.readsBack_keyword word
  | symbol mark => exact Lexer.readsBack_symbol mark
  | identifier name hname => exact Lexer.readsBack_identifier hname
  | whole digits hrun => exact readsBack_ofChars (Lexer.isSome_ofChars?_of_isRun hrun)
  | fraction digits part hrun hpart =>
    exact readsBack_ofChars (Lexer.isSome_ofChars?_fraction hrun hpart)
  | quoted quote hquote content => exact Lexer.readsBack_quoteWith hquote content

theorem scan_text (ws : List Writing) : Lexer.scan (text ws).toList = .ok (tokens ws) := by
  have hpieces : ∀ p ∈ ws.map piece, Lexer.ReadsBack p.1 p.2 := by
    intro p hp
    obtain ⟨w, -, rfl⟩ := List.mem_map.mp hp
    exact w.readsBack
  have hscan := Lexer.scan_pieces hpieces
  rw [List.map_map] at hscan
  rw [text, String.toList_ofList]
  exact hscan

/-- **Written lexemes are tokenized to themselves**: one token for each of them in the same order,
and then the end mark. -/
theorem tokenize_text (ws : List Writing) :
    tokenize (text ws) = .ok (tokens ws ++ [.endAt (text ws).length]) ∧
      (tokens ws).map Token.lexeme = ws.map lexeme := by
  refine ⟨?_, map_lexeme_tokens ws⟩
  rw [tokenize, scan_text]
  rfl

-- slashes side by side, a numeral before a point, and a text with both quotes and a backslash
example : text [symbol .slash, symbol .slash, whole ['1'] rfl, symbol .dot,
    quoted '\x27' rfl "'\\\x22"] = "/ / 1 . '\\'\\\\\x22'" := rfl

end Writing

end Script
