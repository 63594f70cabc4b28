import Dalvik.Text.Printable

/-!
# Quoted text

Messages and string operands show text between double quotes.  Quotes, backslashes and the four
common controls are written with a backslash.  A character that extends a grapheme or has no
shape is written by its code point, in hexadecimal between braces.  All else stands for itself.
-/

namespace Dalvik.Text

/-- A number in lower case hexadecimal, without leading zeros. -/
def hex (n : Nat) : List Char := Nat.toDigits 16 n

/-- The written form of one character inside quotes. -/
def escape (c : Char) : List Char :=
  match c with
  | '\x00' => ['\\', '0']
  | '\t' => ['\\', 't']
  | '\r' => ['\\', 'r']
  | '\n' => ['\\', 'n']
  | '\\' => ['\\', '\\']
  | '"' => ['\\', '"']
  | c =>
    if isExtender c || !isPrintable c then
      '\\' :: 'u' :: '\x7b' :: hex c.toNat ++ ['\x7d']
    else [c]

/-- Text between double quotes. -/
def quoted (s : String) : String :=
  String.ofList ('"' :: s.toList.flatMap escape ++ ['"'])

end Dalvik.Text
