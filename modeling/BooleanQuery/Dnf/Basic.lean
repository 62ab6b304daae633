import BooleanQuery.Term

/-!
# Disjunctive normal forms

A clause is a conjunction of terms, and a normal form is a disjunction of clauses. Both are lists,
not sets: the order is part of an answer, and nothing is deduplicated or absorbed. `holds` says
what they mean under a truth assignment of the terms.

The empty clause holds always, so the normal form with just that clause is the unit `always` of
the product `cross`; the form without clauses is its zero `never`. The product goes through the
clauses of its left factor in order and pairs each with every clause of the right factor, so the
clauses of a product of several factors are in lexicographic order of the choices.
-/

set_option autoImplicit false

namespace BooleanQuery

/-- A conjunction of terms. -/
@[ext] structure Clause where
  terms : List Term
deriving DecidableEq, Repr

namespace Clause

/-- Whether all terms of the clause are true. -/
def holds (v : Term → Bool) (c : Clause) : Bool := c.terms.all v

/-- The conjunction of two clauses. -/
def merge (c d : Clause) : Clause := ⟨c.terms ++ d.terms⟩

end Clause

/-- A disjunction of clauses. -/
@[ext] structure Dnf where
  clauses : List Clause
deriving DecidableEq, Repr

namespace Dnf

/-- Whether some clause holds. -/
def holds (v : Term → Bool) (d : Dnf) : Bool := d.clauses.any fun c => c.holds v

/-- The number of clauses. -/
def size (d : Dnf) : Nat := d.clauses.length

/-- One empty clause. -/
def always : Dnf := ⟨[⟨[]⟩]⟩

/-- No clause. -/
def never : Dnf := ⟨[]⟩

/-- The normal form of a conjunction of terms. -/
def ofTerms (ts : List Term) : Dnf := ⟨[⟨ts⟩]⟩

/-- The conjunction of two normal forms: every clause of the first with every clause of the
second. -/
def cross (d e : Dnf) : Dnf := ⟨d.clauses.flatMap fun c => e.clauses.map c.merge⟩

/-- The conjunction of a list of normal forms. -/
def all (ds : List Dnf) : Dnf := ds.foldl cross always

/-- The disjunction of a list of normal forms. -/
def any (ds : List Dnf) : Dnf := ⟨ds.flatMap clauses⟩

end Dnf

end BooleanQuery
