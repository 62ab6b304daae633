import BooleanQuery.Dnf.Written
import BooleanQuery.Proofs.Operator.Operands

/-!
# The text of a written normal form

A written normal form is a join of joins of the texts of its terms.
-/

set_option autoImplicit false

namespace BooleanQuery

theorem Clause.toList_written (c : Clause) :
    c.written.toList = Operator.and.sep.intercalate (c.terms.map fun t => t.text.toList) := by
  rw [written, String.toList_intercalate, Operator.toList_separator, List.map_map]
  rfl

theorem Dnf.toList_written (d : Dnf) :
    d.written.toList = Operator.or.sep.intercalate (d.clauses.map fun c => c.written.toList) := by
  rw [written, String.toList_intercalate, Operator.toList_separator, List.map_map]
  rfl

end BooleanQuery
