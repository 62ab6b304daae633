import BooleanQuery.Proofs.Dnf.Algebra
import BooleanQuery.Query.NormalForm

/-!
# What a query and its normal form have in common

The normal form of a query means what the query means (`holds_dnf`), has as many clauses as the
query counts (`size_dnf`), and speaks of the same terms (`mem_terms_dnf`). The last needs that no
node of the query is without operands: a disjunction of nothing is false, and a conjunction with it
has no clause to keep its terms in.
-/

set_option autoImplicit false

namespace BooleanQuery.Query

/-! ## Induction over operands -/

mutual

/-- What holds of a node if it holds of the operands holds of every query. -/
@[elab_as_elim] theorem inductOperands {P : Query → Prop} (term : ∀ t, P (.term t))
    (all : ∀ qs, (∀ q ∈ qs, P q) → P (.all qs)) (any : ∀ qs, (∀ q ∈ qs, P q) → P (.any qs)) :
    ∀ q, P q
  | .term t => term t
  | .all qs => all qs (inductOperandsList term all any qs)
  | .any qs => any qs (inductOperandsList term all any qs)

theorem inductOperandsList {P : Query → Prop} (term : ∀ t, P (.term t))
    (all : ∀ qs, (∀ q ∈ qs, P q) → P (.all qs)) (any : ∀ qs, (∀ q ∈ qs, P q) → P (.any qs)) :
    ∀ qs : List Query, ∀ q ∈ qs, P q
  | [], q, hq => absurd hq (by simp)
  | q :: qs, r, hr => by
    rcases List.mem_cons.1 hr with h | h
    · rw [h]
      exact inductOperands term all any q
    · exact inductOperandsList term all any qs r h

end

/-! ## Functions on lists of operands -/

theorem allHold_eq (v : Term → Bool) (qs : List Query) : allHold v qs = qs.all (holds v) := by
  induction qs with
  | nil => rfl
  | cons q qs ih => rw [allHold, ih, List.all_cons]

theorem anyHolds_eq (v : Term → Bool) (qs : List Query) : anyHolds v qs = qs.any (holds v) := by
  induction qs with
  | nil => rfl
  | cons q qs ih => rw [anyHolds, ih, List.any_cons]

theorem leavesList_eq (qs : List Query) : leavesList qs = qs.flatMap leaves := by
  induction qs with
  | nil => rfl
  | cons q qs ih => rw [leavesList, ih, List.flatMap_cons]

theorem dnfs_eq (qs : List Query) : dnfs qs = qs.map dnf := by
  induction qs with
  | nil => rfl
  | cons q qs ih => rw [dnfs, ih, List.map_cons]

theorem term_or_compound (q : Query) : (∃ t, q = .term t) ∨ term? q = none := by
  cases q with
  | term t => exact Or.inl ⟨t, rfl⟩
  | all ps => exact Or.inr rfl
  | any ps => exact Or.inr rfl

theorem compoundDnfs_cons {q : Query} (h : term? q = none) (qs : List Query) :
    compoundDnfs (q :: qs) = dnf q :: compoundDnfs qs := by
  cases q with
  | term t => exact absurd h (by simp [term?])
  | all ps =>
    rw [compoundDnfs]
    simp
  | any ps =>
    rw [compoundDnfs]
    simp

/-- The factors whose product is the normal form of a conjunction: the compound operands, and the
plain terms as one factor. -/
def factors (qs : List Query) : List Dnf :=
  compoundDnfs qs ++ [Dnf.ofTerms (qs.filterMap term?)]

theorem dnf_all (qs : List Query) : dnf (.all qs) = Dnf.all (factors qs) := by
  rw [dnf, factors]

theorem dnf_any (qs : List Query) : dnf (.any qs) = Dnf.any (qs.map dnf) := by
  rw [dnf, dnfs_eq]

/-- A pair of parentheses around a query, which reads as a disjunction of one conjunction of one
operand, changes nothing. -/
theorem dnf_any_all_singleton (q : Query) : dnf (.any [.all [q]]) = dnf q := by
  rw [dnf_any, List.map_singleton, Dnf.any_singleton, dnf_all, factors]
  rcases term_or_compound q with ⟨t, rfl⟩ | hq
  · rw [dnf]
    exact Dnf.all_singleton _
  · rw [compoundDnfs_cons hq]
    simp only [compoundDnfs, List.filterMap_cons, hq, List.filterMap_nil, List.singleton_append]
    rw [Dnf.all_cons, Dnf.all_singleton]
    exact Dnf.cross_always (dnf q)

/-! ## Meaning -/

theorem holds_dnf_all (v : Term → Bool) {qs : List Query}
    (ih : ∀ q ∈ qs, (dnf q).holds v = q.holds v) : (dnf (.all qs)).holds v = qs.all (holds v) := by
  rw [dnf_all, Dnf.holds_all, factors, List.all_append]
  simp only [List.all_cons, List.all_nil, Bool.and_true, Dnf.holds_ofTerms]
  induction qs with
  | nil => rfl
  | cons q qs ihqs =>
    have hqs := ihqs fun r hr => ih r (by simp [hr])
    -- the plain terms stand at the end of the product, so one of them moves past the rest
    rcases term_or_compound q with ⟨t, rfl⟩ | hq
    · rw [compoundDnfs, List.all_cons, ← hqs, holds]
      simp only [List.filterMap_cons, term?, List.all_cons]
      rw [Bool.and_left_comm]
    · rw [compoundDnfs_cons hq, List.all_cons, List.all_cons, ← hqs, ih q (by simp)]
      simp only [List.filterMap_cons, hq]
      rw [Bool.and_assoc]

theorem holds_dnf (v : Term → Bool) (q : Query) : (dnf q).holds v = q.holds v := by
  induction q using inductOperands with
  | term t => simp [dnf, holds, Dnf.holds_ofTerms]
  | all qs ih => rw [holds_dnf_all v ih, holds, allHold_eq]
  | any qs ih =>
    rw [dnf_any, Dnf.holds_any, holds, anyHolds_eq, List.any_map, Bool.eq_iff_iff,
      List.any_eq_true, List.any_eq_true]
    exact exists_congr fun q => and_congr_right fun hq => by rw [Function.comp_apply, ih q hq]

/-! ## Number of clauses -/

theorem size_dnf_all {qs : List Query} (ih : ∀ q ∈ qs, (dnf q).size = q.clauseCount) :
    (dnf (.all qs)).size = clauseProduct qs := by
  have hlast : (Dnf.ofTerms (qs.filterMap term?)).size = 1 := rfl
  rw [dnf_all, Dnf.size_all, factors, List.foldr_append, List.foldr_cons, List.foldr_nil, hlast,
    Nat.mul_one]
  clear hlast
  induction qs with
  | nil => rfl
  | cons q qs ihqs =>
    have hqs := ihqs fun r hr => ih r (by simp [hr])
    rcases term_or_compound q with ⟨t, rfl⟩ | hq
    · rw [compoundDnfs, hqs, clauseProduct, clauseCount, Nat.one_mul]
    · rw [compoundDnfs_cons hq, List.foldr_cons, hqs, ih q (by simp), clauseProduct]

theorem size_dnf_any {qs : List Query} (ih : ∀ q ∈ qs, (dnf q).size = q.clauseCount) :
    (dnf (.any qs)).size = clauseSum qs := by
  rw [dnf_any, Dnf.size_any]
  induction qs with
  | nil => rfl
  | cons q qs ihqs =>
    rw [List.map_cons, List.foldr_cons, ihqs fun r hr => ih r (by simp [hr]), ih q (by simp),
      clauseSum]

theorem size_dnf (q : Query) : (dnf q).size = q.clauseCount := by
  induction q using inductOperands with
  | term t => rfl
  | all qs ih => rw [size_dnf_all ih, clauseCount]
  | any qs ih => rw [size_dnf_any ih, clauseCount]

/-! ## Terms -/

mutual

/-- Every node of the query has an operand. -/
def Proper : Query → Prop
  | .term _ => True
  | .all qs => qs ≠ [] ∧ ProperList qs
  | .any qs => qs ≠ [] ∧ ProperList qs

def ProperList : List Query → Prop
  | [] => True
  | q :: qs => Proper q ∧ ProperList qs

end

theorem properList_iff {qs : List Query} : ProperList qs ↔ ∀ q ∈ qs, q.Proper := by
  induction qs with
  | nil => simp [ProperList]
  | cons q qs ih => simp [ProperList, ih]

theorem mem_compoundDnfs {qs : List Query} {d : Dnf} :
    d ∈ compoundDnfs qs ↔ ∃ q ∈ qs, term? q = none ∧ dnf q = d := by
  induction qs with
  | nil => simp [compoundDnfs]
  | cons q qs ih =>
    rcases term_or_compound q with ⟨t, rfl⟩ | hq
    · simp [compoundDnfs, ih, term?]
    · simp [compoundDnfs_cons hq, ih, hq, eq_comm (a := d)]

theorem mem_filterMap_term? {qs : List Query} {t : Term} :
    t ∈ qs.filterMap term? ↔ .term t ∈ qs := by
  rw [List.mem_filterMap]
  constructor
  · intro ⟨q, hq, ht⟩
    cases q with
    | term s =>
      obtain rfl := Option.some.inj ht
      exact hq
    | all ps => exact absurd ht (by simp [term?])
    | any ps => exact absurd ht (by simp [term?])
  · intro h
    exact ⟨.term t, h, rfl⟩

theorem exists_mem_factors {qs : List Query} {t : Term} :
    (∃ d ∈ factors qs, t ∈ d.terms) ↔ ∃ q ∈ qs, t ∈ (dnf q).terms := by
  simp only [factors, List.mem_append, List.mem_singleton]
  constructor
  · intro ⟨d, hd, ht⟩
    rcases hd with hd | rfl
    · obtain ⟨q, hq, -, rfl⟩ := mem_compoundDnfs.1 hd
      exact ⟨q, hq, ht⟩
    · rw [Dnf.terms_ofTerms] at ht
      exact ⟨.term t, mem_filterMap_term?.1 ht, by simp [dnf, Dnf.terms_ofTerms]⟩
  · intro ⟨q, hq, ht⟩
    rcases term_or_compound q with ⟨s, rfl⟩ | hnone
    · obtain rfl : t = s := by simpa [dnf, Dnf.terms_ofTerms] using ht
      exact ⟨_, Or.inr rfl, by rwa [Dnf.terms_ofTerms, mem_filterMap_term?]⟩
    · exact ⟨dnf q, Or.inl (mem_compoundDnfs.2 ⟨q, hq, hnone, rfl⟩), ht⟩

theorem size_factors_ne_zero {qs : List Query} (h : ∀ q ∈ qs, (dnf q).size ≠ 0) :
    ∀ d ∈ factors qs, d.size ≠ 0 := by
  intro d hd
  rcases List.mem_append.1 hd with hd | hd
  · obtain ⟨q, hq, -, rfl⟩ := mem_compoundDnfs.1 hd
    exact h q hq
  · obtain rfl := List.mem_singleton.1 hd
    exact Nat.one_ne_zero

theorem size_dnf_ne_zero {q : Query} (h : q.Proper) : (dnf q).size ≠ 0 := by
  induction q using inductOperands with
  | term t => exact Nat.one_ne_zero
  | all qs ih =>
    rw [Proper, properList_iff] at h
    rw [dnf_all]
    exact Dnf.size_all_ne_zero (size_factors_ne_zero fun q hq => ih q hq (h.2 q hq))
  | any qs ih =>
    rw [Proper, properList_iff] at h
    rw [dnf_any]
    apply Dnf.size_any_ne_zero (by simpa using h.1)
    intro d hd
    obtain ⟨q, hq, rfl⟩ := List.mem_map.1 hd
    exact ih q hq (h.2 q hq)

theorem mem_terms_dnf {q : Query} (h : q.Proper) {t : Term} :
    t ∈ (dnf q).terms ↔ t ∈ q.leaves := by
  induction q using inductOperands with
  | term s => simp [dnf, leaves, Dnf.terms_ofTerms]
  | all qs ih =>
    rw [Proper, properList_iff] at h
    have hsize := size_factors_ne_zero fun q hq => size_dnf_ne_zero (h.2 q hq)
    rw [dnf_all, Dnf.mem_terms_all hsize, exists_mem_factors, leaves, leavesList_eq,
      List.mem_flatMap]
    exact exists_congr fun q => and_congr_right fun hq => ih q hq (h.2 q hq)
  | any qs ih =>
    rw [Proper, properList_iff] at h
    rw [dnf_any, Dnf.mem_terms_any, leaves, leavesList_eq, List.mem_flatMap]
    constructor
    · intro ⟨d, hd, ht⟩
      obtain ⟨q, hq, rfl⟩ := List.mem_map.1 hd
      exact ⟨q, hq, (ih q hq (h.2 q hq)).1 ht⟩
    · intro ⟨q, hq, ht⟩
      exact ⟨dnf q, List.mem_map_of_mem hq, (ih q hq (h.2 q hq)).2 ht⟩

/-- The normal form of a query in which no node is without operands has no empty clause. -/
theorem filled_dnf {q : Query} (h : q.Proper) : (dnf q).Filled := by
  induction q using inductOperands with
  | term t => simp [Dnf.Filled, dnf, Dnf.ofTerms]
  | all qs ih =>
    rw [Proper, properList_iff] at h
    obtain ⟨q, hq⟩ := List.exists_mem_of_ne_nil qs h.1
    rw [dnf_all]
    -- whatever the operand is, the factor that it is in has none
    rcases term_or_compound q with ⟨t, rfl⟩ | hnone
    · have hfactor : Dnf.ofTerms (qs.filterMap term?) ∈ factors qs := by simp [factors]
      refine Dnf.filled_all hfactor ?_
      have ht : t ∈ qs.filterMap term? := mem_filterMap_term?.2 hq
      simpa [Dnf.Filled, Dnf.ofTerms] using List.ne_nil_of_mem ht
    · have hfactor : dnf q ∈ factors qs :=
        List.mem_append_left _ (mem_compoundDnfs.2 ⟨q, hq, hnone, rfl⟩)
      exact Dnf.filled_all hfactor (ih q hq (h.2 q hq))
  | any qs ih =>
    rw [Proper, properList_iff] at h
    rw [dnf_any]
    apply Dnf.filled_any
    intro d hd
    obtain ⟨q, hq, rfl⟩ := List.mem_map.1 hd
    exact ih q hq (h.2 q hq)

end BooleanQuery.Query
