import BooleanQuery.Dnf.Basic
import BooleanQuery.Operator.Basic

/-!
# Written normal forms

A normal form is written as an expression without parentheses: the operator `AND` binds closer, so
clauses between `OR`s need none. The written form does not tell the empty normal form from the
empty clause: both are written as the empty text.
-/

set_option autoImplicit false

namespace BooleanQuery

/-- The terms with `AND` between them. -/
def Clause.written (c : Clause) : String :=
  Operator.and.separator.intercalate (c.terms.map Term.text)

instance : ToString Clause := ⟨Clause.written⟩

/-- The clauses with `OR` between them. -/
def Dnf.written (d : Dnf) : String :=
  Operator.or.separator.intercalate (d.clauses.map Clause.written)

instance : ToString Dnf := ⟨Dnf.written⟩

end BooleanQuery
