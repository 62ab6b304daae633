import BooleanQuery.Dnf.Basic
import BooleanQuery.Query.Basic

/-!
# The normal form of a query

Conjunctions are multiplied out. In each clause of a conjunction the terms that come from its
compound operands stand first, in the order of those operands, and the operands that are plain
terms follow, all together: the plain terms are one factor of the product, the last one.
-/

set_option autoImplicit false

namespace BooleanQuery.Query

/-- The term that a query consists of, if it is a plain term. -/
def term? : Query → Option Term
  | .term t => some t
  | _ => none

mutual

def dnf : Query → Dnf
  | .term t => Dnf.ofTerms [t]
  | .all qs => Dnf.all (compoundDnfs qs ++ [Dnf.ofTerms (qs.filterMap term?)])
  | .any qs => Dnf.any (dnfs qs)

/-- The normal forms of the operands. -/
def dnfs : List Query → List Dnf
  | [] => []
  | q :: qs => dnf q :: dnfs qs

/-- The normal forms of the operands that are no plain terms. -/
def compoundDnfs : List Query → List Dnf
  | [] => []
  | .term _ :: qs => compoundDnfs qs
  | q :: qs => dnf q :: compoundDnfs qs

end

end BooleanQuery.Query
