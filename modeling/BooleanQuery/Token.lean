import BooleanQuery.Text.Span

/-!
# Tokens

The parentheses and the plain space are tokens of their own, and every longest run of other
characters is one word, white space other than the plain space included. So each character
belongs to exactly one token, no text is refused, and the texts of the tokens in order are the
text that was read.

Operators are no tokens: whether the word `AND` is an operator depends on its neighbours
(`BooleanQuery.Operator.Operands`).

The token texts come first and their places afterwards: `tokenize` is a right fold over the
characters, and `locate` adds up the lengths.
-/

set_option autoImplicit false

namespace BooleanQuery

inductive Token where
  | openParen
  | closeParen
  | space
  /-- A run of characters that are none of the other tokens. -/
  | word (text : List Char)
deriving DecidableEq, Repr

namespace Token

/-- The token that a character forms on its own. -/
def ofChar (c : Char) : Token :=
  if c = '(' then .openParen
  else if c = ')' then .closeParen
  else if c = ' ' then .space
  else .word [c]

/-- The characters of a token. -/
def text : Token → List Char
  | .openParen => ['(']
  | .closeParen => [')']
  | .space => [' ']
  | .word w => w

/-- Puts a character in front of a tokenized text: it prolongs a word that follows, if it is part
of a word itself. -/
def consChar (c : Char) (ts : List Token) : List Token :=
  match ofChar c, ts with
  | .word w, .word v :: ts => .word (w ++ v) :: ts
  | t, ts => t :: ts

end Token

/-- The tokens of a text. -/
def tokenize (s : List Char) : List Token := s.foldr Token.consChar []

/-- A token and the bytes it covers. -/
structure Lexeme where
  span : Text.Span
  token : Token
deriving DecidableEq, Repr

/-- Places tokens one after another, the first at byte offset `pos`. -/
def locate (pos : Nat) : List Token → List Lexeme
  | [] => []
  | t :: ts =>
    let stop := pos + Text.byteLength t.text
    ⟨⟨pos, stop⟩, t⟩ :: locate stop ts

/-- The tokens of a text with their places in it. -/
def lexemes (s : List Char) : List Lexeme := locate 0 (tokenize s)

theorem Token.text_ofChar (c : Char) : (ofChar c).text = [c] := by
  simp only [ofChar]
  repeat' split
  all_goals simp_all [text]

theorem Token.flatMap_text_consChar (c : Char) (ts : List Token) :
    (consChar c ts).flatMap text = c :: ts.flatMap text := by
  have h := text_ofChar c
  simp only [consChar]
  split
  · next w v ts' hc => rw [hc] at h; simp_all [text]
  · simp [h]

/-- Nothing is lost: the tokens spell the text. -/
theorem flatMap_text_tokenize (s : List Char) : (tokenize s).flatMap Token.text = s := by
  induction s with
  | nil => rfl
  | cons c s ih =>
    simp only [tokenize, List.foldr_cons] at ih ⊢
    rw [Token.flatMap_text_consChar, ih]

end BooleanQuery
