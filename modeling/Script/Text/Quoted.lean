import Script.Text.Graphic

/-!
# Quoted text

A text that stands inside another one is put in double quotes.  Quotes, backslashes and characters
that do not show themselves are escaped, so that the quoted form is unambiguous.
-/

namespace Script.Text

/-- The digits of a code point in lower case hexadecimal. -/
def hexDigits (n : Nat) : List Char := Nat.toDigits 16 n

/-- A character as it stands inside a quoted text. -/
def escapeChar (c : Char) : List Char :=
  match c with
  | '\x00' => ['\\', '0']
  | '\t' => ['\\', 't']
  | '\r' => ['\\', 'r']
  | '\n' => ['\\', 'n']
  | '\x22' => ['\\', '\x22']
  | '\\' => ['\\', '\\']
  | c => if isGraphic c then [c] else '\\' :: 'u' :: '\x7b' :: (hexDigits c.toNat ++ ['\x7d'])

/-- A text in double quotes, with its special characters escaped. -/
def quote (s : String) : String :=
  String.ofList ('\x22' :: (s.toList.flatMap escapeChar ++ ['\x22']))

end Script.Text
