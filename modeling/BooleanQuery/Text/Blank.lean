import BooleanQuery.Text.Ranges

/-!
# Blank characters

Which characters count as white space, and a text without the blanks at its ends. The property
is Unicode's White_Space, all 25 code points of it; separators and format characters outside it
(the information separators U+001C to U+001F, the zero-width space, the byte order mark) are
ordinary text.

A text is a `List Char` from here on: every scan of the library is a recursion on it.
-/

set_option autoImplicit false

namespace BooleanQuery.Text

/-- The code points with the property White_Space. -/
def blankRanges : Ranges :=
  [(0x09, 0x0D), (0x20, 0x20), (0x85, 0x85), (0xA0, 0xA0), (0x1680, 0x1680), (0x2000, 0x200A),
   (0x2028, 0x2029), (0x202F, 0x202F), (0x205F, 0x205F), (0x3000, 0x3000)]

/-- Whether the character is white space. -/
def isBlank (c : Char) : Bool := blankRanges.covers c.toNat

/-- Whether a text holds nothing but white space; the empty text does. -/
def isBlankText (s : List Char) : Bool := s.all isBlank

def trimLeft (s : List Char) : List Char := s.dropWhile isBlank

def trimRight (s : List Char) : List Char := (s.reverse.dropWhile isBlank).reverse

/-- The text without the white space at either end. -/
def trim (s : List Char) : List Char := trimRight (trimLeft s)

theorem isBlank_iff {c : Char} :
    isBlank c ↔ ∃ r ∈ blankRanges, r.1 ≤ c.toNat ∧ c.toNat ≤ r.2 :=
  Ranges.covers_iff (by decide) c.toNat

theorem isBlank_space : isBlank ' ' = true := by decide

theorem isBlank_openParen : isBlank '(' = false := by decide

theorem isBlank_closeParen : isBlank ')' = false := by decide

end BooleanQuery.Text
