import BooleanQuery.Text.Blank

/-!
# Enclosing parentheses

A text is *enclosed* when its first character is a `(` whose partner is its last character.
`(a) AND (b)` is not: its first `(` closes early. The enclosure of a text that is to be read is
dropped by `strip`, one pair at a time, whatever white space stands around it.
-/

set_option autoImplicit false

namespace BooleanQuery.Paren

/-- Splits a text at the `)` that closes the group it starts in: what stands before it and what
stands after. The number counts the groups that opened since and are still open. -/
def closeGroup? : Nat → List Char → Option (List Char × List Char)
  | _, [] => none
  | depth, c :: s =>
    if c = '(' then (closeGroup? (depth + 1) s).map fun (inner, rest) => (c :: inner, rest)
    else if c = ')' then
      match depth with
      | 0 => some ([], s)
      | depth + 1 => (closeGroup? depth s).map fun (inner, rest) => (c :: inner, rest)
    else (closeGroup? depth s).map fun (inner, rest) => (c :: inner, rest)

/-- The content of an enclosed text, without the enclosing pair. -/
def enclosed? : List Char → Option (List Char)
  | '(' :: s =>
    match closeGroup? 0 s with
    | some (inner, []) => some inner
    | _ => none
  | _ => none

/-- Removes one enclosing pair, and with it the white space around it. A text that is not
enclosed, white space at its ends aside, is left as it is. -/
def strip (s : List Char) : List Char := (enclosed? (Text.trim s)).getD s

end BooleanQuery.Paren
