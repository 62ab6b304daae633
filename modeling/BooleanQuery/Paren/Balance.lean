/-!
# Balanced parentheses

A text is balanced when every parenthesis has its partner. `unmatched?` looks for one that has
none and answers its byte offset: the first `)` that closes nothing or, if there is no such `)`,
the last `(` that is never closed.
-/

set_option autoImplicit false

namespace BooleanQuery.Paren

/-- Whether a text holds a parenthesis of either kind. -/
def hasParen (s : List Char) : Bool := s.any fun c => c = '(' || c = ')'

/-- Scans a text that starts at byte offset `pos`, with the offsets of the parentheses still open,
innermost first. -/
def unmatchedFrom? (pos : Nat) (opened : List Nat) : List Char → Option Nat
  | [] => opened.head?
  | c :: s =>
    if c = '(' then unmatchedFrom? (pos + c.utf8Size) (pos :: opened) s
    else if c = ')' then
      match opened with
      | [] => some pos
      | _ :: opened => unmatchedFrom? (pos + c.utf8Size) opened s
    else unmatchedFrom? (pos + c.utf8Size) opened s

/-- The byte offset of a parenthesis without a partner, or `none` if the text is balanced. -/
def unmatched? (s : List Char) : Option Nat := unmatchedFrom? 0 [] s

/-- Every parenthesis of the text has its partner. -/
def Balanced (s : List Char) : Prop := unmatched? s = none

instance (s : List Char) : Decidable (Balanced s) := inferInstanceAs (Decidable (_ = none))

end BooleanQuery.Paren
