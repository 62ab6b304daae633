import BooleanQuery.Operator.Basic
import BooleanQuery.Token

/-!
# The operands of an operator

A text is cut at every occurrence of an operator that stands outside parentheses. Occurrences are
taken from left to right and do not overlap, so `a AND AND b` has the operands `a` and `AND b`:
the second keyword has lost its leading space to the first.

A `)` that closes nothing changes no depth. The operands come back untrimmed, as slices of the
text, and a text without the operator is its own single operand.
-/

set_option autoImplicit false

namespace BooleanQuery.Operator

open Text (Span)

/-- The spans between the occurrences of `op`, in a text that ends at byte offset `stop`: `depth`
groups are open before the lexemes that are left, and the current operand began at `start`. -/
def operandSpans (op : Operator) (stop : Nat) : (depth start : Nat) → List Lexeme → List Span
  | _, start, [] => [⟨start, stop⟩]
  | depth, start, ⟨_, .openParen⟩ :: ls => operandSpans op stop (depth + 1) start ls
  | depth, start, ⟨_, .closeParen⟩ :: ls => operandSpans op stop (depth - 1) start ls
  | depth, start, ⟨before, .space⟩ :: ⟨_, .word w⟩ :: ⟨after, .space⟩ :: ls =>
    if depth = 0 ∧ w = op.keyword.toList then
      ⟨start, before.start⟩ :: operandSpans op stop 0 after.stop ls
    else operandSpans op stop depth start (⟨after, .space⟩ :: ls)
  | depth, start, _ :: ls => operandSpans op stop depth start ls

/-- The operands of `op` in a text. -/
def operands (op : Operator) (s : List Char) : List (List Char) :=
  (operandSpans op (Text.byteLength s) 0 0 (lexemes s)).map fun span => span.slice s

end BooleanQuery.Operator
