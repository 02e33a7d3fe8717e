import LexScript.Text.Unprintable

/-!
# Quoted text

Text is quoted in two ways. In messages a quote, a backslash, the usual control characters
and a NUL are written with a backslash and a letter; other characters that cannot be shown
are written by their code in hexadecimal. In exchanged data every character from the space on
stands for itself except the quote and the backslash, and codes have four digits.

## Main definitions

* `Text.quote` : the text in messages.
* `Text.exchangeQuote` : the text in exchanged data.
-/

namespace LexScript.Text

/-- The digits of a number in lower-case hexadecimal. -/
def hexDigits (n : Nat) : List Char := Nat.toDigits 16 n

/-- How a character is written inside quotes in a message. -/
def escape (c : Char) : List Char :=
  match c with
  | '"' => ['\\', '"']
  | '\\' => ['\\', '\\']
  | '\n' => ['\\', 'n']
  | '\r' => ['\\', 'r']
  | '\t' => ['\\', 't']
  | '\x00' => ['\\', '0']
  | c =>
    if c.toNat < 32 || c.toNat = 127 || isUnprintable c.toNat then
      '\\' :: 'u' :: '\x7b' :: (hexDigits c.toNat ++ ['\x7d'])
    else [c]

/-- A text in quotes as messages show it. -/
def quote (s : String) : String :=
  String.ofList ('"' :: (s.toList.flatMap escape ++ ['"']))

/-- How a character is written inside quotes in exchanged data. -/
def exchangeEscape (c : Char) : List Char :=
  match c with
  | '"' => ['\\', '"']
  | '\\' => ['\\', '\\']
  | '\x08' => ['\\', 'b']
  | '\x0c' => ['\\', 'f']
  | '\n' => ['\\', 'n']
  | '\r' => ['\\', 'r']
  | '\t' => ['\\', 't']
  | c =>
    if c.toNat < 32 then
      let digits := hexDigits c.toNat
      '\\' :: 'u' :: (List.replicate (4 - digits.length) '0' ++ digits)
    else [c]

/-- A text in quotes as exchanged data show it. -/
def exchangeQuote (s : String) : String :=
  String.ofList ('"' :: (s.toList.flatMap exchangeEscape ++ ['"']))

end LexScript.Text
