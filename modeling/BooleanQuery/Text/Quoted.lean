import BooleanQuery.Text.Unprintable

/-!
# Quoted text

A text between double quotes, written so that every character of it can be seen: the quote and the
backslash stand behind a backslash, the common controls have letters, and any other unprintable
character is written as its code point in hexadecimal, `\u{200b}`. An apostrophe needs no escape.
-/

set_option autoImplicit false

namespace BooleanQuery.Text

/-- The code point of a character in lower-case hexadecimal digits, without leading zeros. -/
def codePoint (c : Char) : List Char := Nat.toDigits 16 c.toNat

/-- A character as it is written between quotes. -/
def escape (c : Char) : List Char :=
  if c = '"' then ['\\', '"']
  else if c = '\\' then ['\\', '\\']
  else if c = '\n' then ['\\', 'n']
  else if c = '\r' then ['\\', 'r']
  else if c = '\t' then ['\\', 't']
  else if c = '\x00' then ['\\', '0']
  else if isUnprintable c then ['\\', 'u', '{'] ++ codePoint c ++ ['}']
  else [c]

/-- A text between double quotes, every character of it visible. -/
def quoted (s : List Char) : List Char := ['"'] ++ s.flatMap escape ++ ['"']

end BooleanQuery.Text
