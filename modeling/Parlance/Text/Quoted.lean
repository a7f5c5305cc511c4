import Parlance.Text.Visible

/-!
# Texts within quotes

A quoted text shows every character: quotes and backslashes get a backslash, the common control
characters have a letter, and any other character that would not be seen is given by its code in
base sixteen.
-/

namespace Parlance.Text

/-- The escape of a character by its code. -/
def escapeCode (c : Char) : List Char := ['\\', 'u', '{'] ++ Nat.toDigits 16 c.toNat ++ ['}']

/-- A character within quotes. -/
def escape (c : Char) : List Char :=
  match c with
  | '\x00' => ['\\', '0']
  | '\t' => ['\\', 't']
  | '\r' => ['\\', 'r']
  | '\n' => ['\\', 'n']
  | '\\' => ['\\', '\\']
  | '"' => ['\\', '"']
  | c => if isVisible c then [c] else escapeCode c

/-- A text within quotes. -/
def quoted (text : String) : String :=
  String.ofList ('"' :: text.toList.flatMap escape ++ ['"'])

end Parlance.Text
