import Upsert.Text.Unprintable

/-! # Quoted text

A text is quoted between double quotes so that every character of it can be seen. The double quote
and the backslash follow a backslash; NUL, tab, line feed and carriage return have short escapes;
any other unprintable character is written by its code point in lower-case hexadecimal digits.
-/

namespace Upsert.Text

/-- The escape by code point. -/
def codePointEscape (c : Char) : List Char :=
  '\\' :: 'u' :: '\x7b' :: (Nat.toDigits 16 c.toNat ++ ['\x7d'])

/-- A character inside a quoted text. -/
def escaped (c : Char) : List Char :=
  match c with
  | '\x00' => ['\\', '0']
  | '\t' => ['\\', 't']
  | '\n' => ['\\', 'n']
  | '\r' => ['\\', 'r']
  | '"' => ['\\', '"']
  | '\\' => ['\\', '\\']
  | c => if isUnprintable c then codePointEscape c else [c]

/-- A text in double quotes. -/
def quoted (text : String) : String :=
  String.ofList ('"' :: (text.toList.flatMap escaped ++ ['"']))

end Upsert.Text
