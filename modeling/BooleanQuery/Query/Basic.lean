import BooleanQuery.Term

/-!
# Queries

What a search expression says: a term, or a conjunction or disjunction of queries. Operands are
kept in their textual order and a node may have any number of them; one with a single operand
means what the operand means.

`holds` is the meaning of a query, `leaves` are its terms from left to right, and `clauseCount`
is the number of ways to choose one alternative at each disjunction that is met.
-/

set_option autoImplicit false

namespace BooleanQuery

inductive Query where
  | term (t : Term)
  /-- The conjunction of the operands. -/
  | all (operands : List Query)
  /-- The disjunction of the operands. -/
  | any (operands : List Query)
deriving Repr

namespace Query

mutual

/-- Whether the query holds when just the terms that `v` accepts are true. -/
def holds (v : Term → Bool) : Query → Bool
  | .term t => v t
  | .all qs => allHold v qs
  | .any qs => anyHolds v qs

def allHold (v : Term → Bool) : List Query → Bool
  | [] => true
  | q :: qs => holds v q && allHold v qs

def anyHolds (v : Term → Bool) : List Query → Bool
  | [] => false
  | q :: qs => holds v q || anyHolds v qs

end

mutual

/-- The terms of the query from left to right. -/
def leaves : Query → List Term
  | .term t => [t]
  | .all qs => leavesList qs
  | .any qs => leavesList qs

def leavesList : List Query → List Term
  | [] => []
  | q :: qs => leaves q ++ leavesList qs

end

mutual

/-- One for a term; the product over the operands of a conjunction and the sum over those of a
disjunction. -/
def clauseCount : Query → Nat
  | .term _ => 1
  | .all qs => clauseProduct qs
  | .any qs => clauseSum qs

def clauseProduct : List Query → Nat
  | [] => 1
  | q :: qs => clauseCount q * clauseProduct qs

def clauseSum : List Query → Nat
  | [] => 0
  | q :: qs => clauseCount q + clauseSum qs

end

end Query

end BooleanQuery
