import BooleanQuery.Text.Blank

/-!
# Spacing

A text is *single-spaced* when the plain space is the only white space in it and no two spaces
are adjacent. `collapse` makes a text so by writing one space for each run of white space. A run
at either end is shortened like any other; it is not removed, because a space at the end of a
text decides whether an operator beside it counts.
-/

set_option autoImplicit false

namespace BooleanQuery.Text

/-- Puts a character in front of a single-spaced text. A blank in front of a space is absorbed by
it. -/
def consSpaced (c : Char) (s : List Char) : List Char :=
  if isBlank c then
    match s with
    | ' ' :: _ => s
    | _ => ' ' :: s
  else c :: s

/-- Writes one space for each run of white space. -/
def collapse (s : List Char) : List Char := s.foldr consSpaced []

@[simp] theorem collapse_nil : collapse [] = [] := rfl

@[simp] theorem collapse_cons (c : Char) (s : List Char) :
    collapse (c :: s) = consSpaced c (collapse s) := rfl

end BooleanQuery.Text
