import Tabletop.Text.Hidden

/-!
# Quoted text

Text between double quotes in which every character can be seen: quotes and backslashes take a backslash, four
controls have a letter, and any other hidden character is named by its code point.
-/

namespace Tabletop.Text

set_option autoImplicit false

/-- A code point by number, as in `\u{301}`. -/
def codePoint (c : Char) : List Char :=
  ['\\', 'u', '\x7b'] ++ Nat.toDigits 16 c.toNat ++ ['\x7d']

def escaped (c : Char) : List Char :=
  match c with
  | '"' => ['\\', '"']
  | '\\' => ['\\', '\\']
  | '\t' => ['\\', 't']
  | '\r' => ['\\', 'r']
  | '\n' => ['\\', 'n']
  | '\x00' => ['\\', '0']
  | c => if isHidden c then codePoint c else [c]

def quoted (cs : List Char) : List Char :=
  '"' :: cs.flatMap escaped ++ ['"']

end Tabletop.Text
