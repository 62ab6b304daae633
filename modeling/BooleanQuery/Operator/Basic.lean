/-!
# Operators

The two operators of a search expression. An operator is written as its keyword, in capitals,
with a space on each side.
-/

set_option autoImplicit false

namespace BooleanQuery

inductive Operator where
  | and
  | or
deriving DecidableEq, Repr

namespace Operator

def keyword : Operator → String
  | .and => "AND"
  | .or => "OR"

/-- The operator as it stands between two operands. -/
def separator (op : Operator) : String := " " ++ op.keyword ++ " "

instance : ToString Operator := ⟨separator⟩

end Operator

end BooleanQuery
