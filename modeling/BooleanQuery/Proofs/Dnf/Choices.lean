import BooleanQuery.Proofs.Dnf.Algebra
import Mathlib.Algebra.BigOperators.Fin
import Mathlib.Data.List.OfFn
import Mathlib.Order.PiLex

/-!
# The clauses of a product, by number

A clause of a product of several normal forms comes from a choice of one clause in each factor. The
order of the clauses is part of the answer, and it is the lexicographic order of the choices: the
last factor changes fastest. So the number of a clause is its choice read as a number in mixed
radix, with the sizes of the factors as the radices (`Choice.rank`), and the clause of that number
holds the terms of the chosen clauses one after another (`Choice.getElem?_rank`).

Both sides are taken apart at the first factor: `all_cons` does it for the product, `rank_cons` and
`clause_cons` for the choice. What is left is the product of two (`getElem?_cross`).
-/

set_option autoImplicit false

namespace BooleanQuery.Dnf

theorem size_all_eq_prod (ds : List Dnf) : (all ds).size = (ds.map size).prod := by
  rw [size_all, List.prod_eq_foldr, List.foldr_map]

/-- In a product the clauses of the first factor are the outer loop. -/
theorem getElem?_cross {d e : Dnf} {i j : Nat} {c c' : Clause} (hc : d.clauses[i]? = some c)
    (hc' : e.clauses[j]? = some c') :
    (d.cross e).clauses[i * e.size + j]? = some (c.merge c') := by
  obtain ⟨cs⟩ := d
  simp only [cross] at hc ⊢
  induction cs generalizing i with
  | nil => exact absurd hc (by simp)
  | cons b cs ih =>
    have hlen : (e.clauses.map b.merge).length = e.size := List.length_map _
    rw [List.flatMap_cons]
    cases i with
    | zero =>
      obtain rfl : b = c := by simpa using hc
      have hj : j < e.size := (List.getElem?_eq_some_iff.1 hc').1
      rw [Nat.zero_mul, Nat.zero_add, List.getElem?_append_left (hlen ▸ hj), List.getElem?_map,
        hc', Option.map_some]
    | succ i =>
      have hle : e.size ≤ (i + 1) * e.size + j := by
        rw [Nat.succ_mul]
        omega
      rw [List.getElem?_append_right (hlen ▸ hle), hlen, Nat.succ_mul, Nat.add_right_comm,
        Nat.add_sub_cancel]
      exact ih (by simpa using hc)

/-- The number of a clause for each factor of a product. -/
abbrev Choice (ds : List Dnf) := (k : Fin ds.length) → Fin ds[k].size

namespace Choice

variable {d : Dnf} {ds : List Dnf}

/-- The terms of the chosen clauses, in the order of the factors. -/
def clause (i : Choice ds) : Clause :=
  ⟨(List.ofFn fun k => (ds[k].clauses.get (i k)).terms).flatten⟩

/-- The choice as a number in mixed radix, the first factor having the leading digit. -/
def rank (i : Choice ds) : Nat := ∑ k, i k * ∏ l > k, ds[l].size

/-- The choice without that for the first factor. -/
def tail (i : Choice (d :: ds)) : Choice ds := fun k => i k.succ

theorem clause_cons (i : Choice (d :: ds)) :
    i.clause = (d.clauses.get (i 0)).merge i.tail.clause :=
  congrArg (Clause.mk ∘ List.flatten) (List.ofFn_succ (n := ds.length))

theorem rank_cons (i : Choice (d :: ds)) : i.rank = i 0 * (all ds).size + i.tail.rank := by
  have hsize : ∏ k : Fin ds.length, ds[k].size = (all ds).size := by
    rw [size_all_eq_prod]
    exact Fin.prod_univ_fun_getElem ds size
  rw [← hsize]
  refine (Fin.sum_univ_succ (n := ds.length) _).trans (congrArg₂ (· + ·) ?_ ?_)
  · exact congrArg ((i 0 : Nat) * ·) (Fin.prod_Ioi_zero (n := ds.length) _)
  · refine Finset.sum_congr rfl fun k _ => ?_
    exact congrArg ((i k.succ : Nat) * ·) (Fin.prod_Ioi_succ (n := ds.length) _ k)

theorem getElem?_rank (i : Choice ds) : (all ds).clauses[i.rank]? = some i.clause := by
  induction ds with
  | nil => rfl
  | cons d ds ih =>
    rw [all_cons, rank_cons, clause_cons]
    exact getElem?_cross (List.getElem?_eq_getElem (i 0).isLt) (ih i.tail)

theorem rank_lt (i : Choice ds) : i.rank < (all ds).size :=
  (List.getElem?_eq_some_iff.1 i.getElem?_rank).1

theorem rank_lt_rank {i j : Choice ds} (h : toLex i < toLex j) : i.rank < j.rank := by
  obtain ⟨k, heq, hlt⟩ := h
  induction ds with
  | nil => exact k.elim0
  | cons d ds ih =>
    rw [rank_cons, rank_cons]
    induction k using Fin.cases with
    | zero =>
      -- the digits behind the first make up less than one step of it
      calc i 0 * (all ds).size + i.tail.rank
          < i 0 * (all ds).size + (all ds).size := Nat.add_lt_add_left i.tail.rank_lt _
        _ = (i 0 + 1) * (all ds).size := (Nat.succ_mul _ _).symm
        _ ≤ j 0 * (all ds).size := Nat.mul_le_mul_right _ hlt
        _ ≤ j 0 * (all ds).size + j.tail.rank := Nat.le_add_right _ _
    | succ k =>
      have hlead : i 0 = j 0 := heq 0 k.succ_pos
      have htail : i.tail.rank < j.tail.rank :=
        ih k (fun l hl => heq l.succ (Fin.succ_lt_succ_iff.2 hl)) hlt
      rw [hlead]
      exact Nat.add_lt_add_left htail _

theorem rank_lt_rank_iff {i j : Choice ds} : i.rank < j.rank ↔ toLex i < toLex j := by
  have hmono : StrictMono fun i : Lex (Choice ds) => (ofLex i).rank := fun _ _ h => rank_lt_rank h
  exact hmono.lt_iff_lt

end Choice

/-- A product has one clause for each choice, in the lexicographic order of the choices, and the
factors may be multiplied in groups. This holds of no factors, of factors without clauses and of
empty clauses as well. -/
theorem all_lexicographic (ds : List Dnf) :
    (all ds).size = (ds.map size).prod ∧
    (∀ i : Choice ds, (all ds).clauses[i.rank]? = some i.clause) ∧
    (∀ i j : Choice ds, i.rank < j.rank ↔ toLex i < toLex j) ∧
    ∀ es : List Dnf, all (ds ++ es) = (all ds).cross (all es) :=
  ⟨size_all_eq_prod ds, Choice.getElem?_rank, fun _ _ => Choice.rank_lt_rank_iff, all_append ds⟩

/-- Of two, three and two clauses the second, the first and the second: number 1 · 6 + 0 · 2 + 1. -/
example :
    (all [⟨[⟨[⟨"a"⟩]⟩, ⟨[⟨"b"⟩]⟩]⟩, ⟨[⟨[⟨"c"⟩, ⟨"d"⟩]⟩, ⟨[]⟩, ⟨[⟨"e"⟩]⟩]⟩,
      ⟨[⟨[⟨"f"⟩]⟩, ⟨[⟨"b"⟩]⟩]⟩]).clauses[7]? = some ⟨[⟨"b"⟩, ⟨"c"⟩, ⟨"d"⟩, ⟨"b"⟩]⟩ := by decide

end BooleanQuery.Dnf
