import BooleanQuery.Proofs.Dnf.Algebra
import Mathlib.Data.List.Forall2
import Mathlib.Data.List.Perm.Basic

/-!
# Laws of the product and the sum

Normal forms with `cross` and `any` are a semiring, but not all of its laws hold of them as lists.
The product has its left factor as the outer loop. So a sum in the left factor comes out as it
stands (`any_cross`), and one in the right factor only up to the order of the clauses
(`cross_any_perm`). And the factors can be exchanged only up to the order of the clauses and of the
terms in each of them (`rearranged_cross`). No law needs a clause or a term to be dropped or
repeated.
-/

set_option autoImplicit false

namespace BooleanQuery.Dnf

/-- The clauses of the one form are those of the other in some order, each with its terms in some
order. Both orders are permutations, so whatever is repeated is repeated as often. -/
def Rearranged (d e : Dnf) : Prop :=
  ∃ cs : List Clause, d.clauses.Perm cs ∧
    List.Forall₂ (fun c c' => c.terms.Perm c'.terms) cs e.clauses

theorem never_cross (d : Dnf) : never.cross d = never := rfl

theorem cross_never (d : Dnf) : d.cross never = never := by
  ext1
  simp [cross, never]

/-! ## A sum in a factor -/

theorem any_cross (ds : List Dnf) (e : Dnf) :
    (any ds).cross e = any (ds.map fun d => d.cross e) := by
  ext1
  simp only [any, cross, List.flatMap_assoc, List.flatMap_map]

/-- Each clause of the left factor meets the whole sum before the next one does, so the clauses of
the summands are interleaved. -/
theorem cross_any_perm (d : Dnf) (es : List Dnf) :
    (d.cross (any es)).clauses.Perm (any (es.map d.cross)).clauses := by
  induction es with
  | nil =>
    show (d.cross never).clauses.Perm []
    rw [cross_never]
    exact List.Perm.nil
  | cons e es ih =>
    have hsplit : (d.cross (any (e :: es))).clauses
        = d.clauses.flatMap fun c => e.clauses.map c.merge ++ (any es).clauses.map c.merge := by
      simp [cross, any]
    rw [hsplit]
    exact (List.flatMap_append_perm d.clauses _ _).symm.trans (ih.append_left _)

/-! ## Exchanging the factors -/

/-- The clauses of a product with the right factor as the outer loop. -/
theorem clauses_cross_perm (d e : Dnf) :
    (d.cross e).clauses.Perm (e.clauses.flatMap fun c' => d.clauses.map fun c => c.merge c') := by
  obtain ⟨cs⟩ := d
  induction cs with
  | nil => simp [cross]
  | cons c cs ih =>
    have hsplit : (cross ⟨c :: cs⟩ e).clauses
        = e.clauses.map c.merge ++ (cross ⟨cs⟩ e).clauses := by
      simp only [cross, List.flatMap_cons]
    rw [hsplit]
    exact (ih.append_left _).trans (List.map_append_flatMap_perm e.clauses c.merge _)

theorem rearranged_cross (d e : Dnf) : (d.cross e).Rearranged (e.cross d) := by
  have hterms : ∀ c c' : Clause, (c.merge c').terms.Perm (c'.merge c).terms :=
    fun c c' => List.perm_append_comm
  refine ⟨_, clauses_cross_perm d e, ?_⟩
  refine List.rel_flatMap (R := Eq) (List.forall₂_eq_eq_eq ▸ rfl) ?_
  rintro c' _ rfl
  rw [List.forall₂_map_left_iff, List.forall₂_map_right_iff, List.forall₂_same]
  exact fun c _ => hterms c c'

/-! ## The laws -/

/-- Associativity, the unit, the zero and the distribution of a sum in the left factor hold of the
lists as they are. A sum in the right factor is distributed up to the order of the clauses, and the
factors are exchanged up to the order of the clauses and of their terms. -/
theorem cross_semiring (d e f : Dnf) :
    (d.cross e).cross f = d.cross (e.cross f) ∧
    always.cross d = d ∧ d.cross always = d ∧
    never.cross d = never ∧ d.cross never = never ∧
    (any [d, e]).cross f = any [d.cross f, e.cross f] ∧
    (d.cross (any [e, f])).clauses.Perm (any [d.cross e, d.cross f]).clauses ∧
    (d.cross e).Rearranged (e.cross d) :=
  ⟨cross_assoc d e f, always_cross d, cross_always d, never_cross d, cross_never d,
    any_cross [d, e] f, cross_any_perm d [e, f], rearranged_cross d e⟩

/-- With a sum in the right factor the order of the clauses does change. -/
example :
    let a : Clause := ⟨[⟨"a"⟩]⟩
    let b : Clause := ⟨[⟨"b"⟩]⟩
    cross ⟨[a, b]⟩ (any [⟨[a]⟩, ⟨[b]⟩]) ≠ any [cross ⟨[a, b]⟩ ⟨[a]⟩, cross ⟨[a, b]⟩ ⟨[b]⟩] := by
  decide

end BooleanQuery.Dnf
