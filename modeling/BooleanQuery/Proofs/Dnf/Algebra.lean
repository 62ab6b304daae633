import BooleanQuery.Dnf.Basic

/-!
# The algebra of normal forms

The product is associative with the unit `always`, and so a product of several normal forms is the
first one times the rest (`all_cons`). By that equation whatever is known of the product of two is
known of the product of a list: what it means, how many clauses it has, and which terms occur.
-/

set_option autoImplicit false

namespace BooleanQuery

@[simp] theorem Clause.merge_empty (c : Clause) : c.merge ⟨[]⟩ = c := by
  simp [merge]

@[simp] theorem Clause.empty_merge (c : Clause) : Clause.merge ⟨[]⟩ c = c := by
  simp [merge]

theorem Clause.merge_assoc (c d e : Clause) : (c.merge d).merge e = c.merge (d.merge e) := by
  simp [merge]

theorem Clause.holds_merge (v : Term → Bool) (c d : Clause) :
    (c.merge d).holds v = (c.holds v && d.holds v) := by
  simp [merge, holds]

namespace Dnf

/-! ## The product -/

theorem always_cross (d : Dnf) : always.cross d = d := by
  have hmap : d.clauses.map (Clause.merge ⟨[]⟩) = d.clauses := by
    rw [show Clause.merge ⟨[]⟩ = id from funext Clause.empty_merge, List.map_id]
  ext1
  simpa [cross, always] using hmap

theorem cross_always (d : Dnf) : d.cross always = d := by
  ext1
  simp [cross, always]

theorem cross_assoc (d e f : Dnf) : (d.cross e).cross f = d.cross (e.cross f) := by
  ext1
  simp only [cross, List.flatMap_assoc, List.flatMap_map, List.map_flatMap, List.map_map]
  congr 1
  funext c
  congr 1
  funext c'
  congr 1
  funext c''
  exact Clause.merge_assoc c c' c''

theorem foldl_cross (d : Dnf) (ds : List Dnf) : ds.foldl cross d = d.cross (all ds) := by
  induction ds generalizing d with
  | nil => exact (cross_always d).symm
  | cons e ds ih =>
    unfold all
    rw [List.foldl_cons, List.foldl_cons, ih, ih, always_cross, cross_assoc]

@[simp] theorem all_nil : all [] = always := rfl

theorem all_cons (d : Dnf) (ds : List Dnf) : all (d :: ds) = d.cross (all ds) := by
  unfold all
  rw [List.foldl_cons, always_cross, foldl_cross]
  rfl

theorem all_append (ds es : List Dnf) : all (ds ++ es) = (all ds).cross (all es) := by
  unfold all
  rw [List.foldl_append, foldl_cross]
  rfl

theorem all_singleton (d : Dnf) : all [d] = d := by
  rw [all_cons, all_nil, cross_always]

theorem any_singleton (d : Dnf) : any [d] = d := by
  ext1
  simp [any]

theorem any_append (ds es : List Dnf) : any (ds ++ es) = any [any ds, any es] := by
  ext1
  simp [any]

/-! ## Meaning -/

theorem holds_ofTerms (v : Term → Bool) (ts : List Term) : (ofTerms ts).holds v = ts.all v := by
  simp [ofTerms, holds, Clause.holds]

theorem holds_cross (v : Term → Bool) (d e : Dnf) :
    (d.cross e).holds v = (d.holds v && e.holds v) := by
  rw [Bool.eq_iff_iff]
  simp only [holds, cross, List.any_flatMap, List.any_map, Bool.and_eq_true, List.any_eq_true,
    Function.comp, Clause.holds_merge]
  constructor
  · intro ⟨c, hc, c', hc', h, h'⟩
    exact ⟨⟨c, hc, h⟩, c', hc', h'⟩
  · intro ⟨⟨c, hc, h⟩, c', hc', h'⟩
    exact ⟨c, hc, c', hc', h, h'⟩

theorem holds_all (v : Term → Bool) (ds : List Dnf) :
    (all ds).holds v = ds.all fun d => d.holds v := by
  induction ds with
  | nil => rfl
  | cons d ds ih => rw [all_cons, holds_cross, ih, List.all_cons]

theorem holds_any (v : Term → Bool) (ds : List Dnf) :
    (any ds).holds v = ds.any fun d => d.holds v := by
  simp [any, holds, List.any_flatMap]

/-- A conjunction of normal forms holds exactly where all of them do, and a disjunction exactly
where one of them does. -/
theorem holds_all_and_any (v : Term → Bool) (ds : List Dnf) :
    ((all ds).holds v = true ↔ ∀ d ∈ ds, d.holds v = true) ∧
    ((any ds).holds v = true ↔ ∃ d ∈ ds, d.holds v = true) := by
  constructor
  · rw [holds_all, List.all_eq_true]
  · rw [holds_any, List.any_eq_true]

/-- With an empty clause a form holds even if no term is true, and without clauses it does not even
if all are. Of no forms the conjunction holds and the disjunction does not. -/
theorem holds_all_and_any_edges :
    (all [⟨[⟨[⟨"a"⟩, ⟨"a"⟩]⟩, ⟨[]⟩]⟩, always]).holds (fun _ => false) = true ∧
    ¬ (all [always, never]).holds (fun _ => true) = true ∧
    (any [never, ⟨[⟨[⟨"a"⟩, ⟨"a"⟩]⟩, ⟨[]⟩]⟩]).holds (fun _ => false) = true ∧
    (all []).holds (fun _ => false) = true ∧ ¬ (any []).holds (fun _ => true) = true := by
  refine ⟨(holds_all_and_any _ _).1.2 (by decide), ?_, (holds_all_and_any _ _).2.2 ?_,
    (holds_all_and_any _ []).1.2 (by simp), ?_⟩
  · intro h
    exact absurd ((holds_all_and_any _ _).1.1 h never (by simp)) (by decide)
  · exact ⟨⟨[⟨[⟨"a"⟩, ⟨"a"⟩]⟩, ⟨[]⟩]⟩, by simp, by decide⟩
  · intro h
    obtain ⟨e, he, -⟩ := (holds_all_and_any _ []).2.1 h
    exact absurd he (by simp)

/-! ## Number of clauses -/

theorem size_cross (d e : Dnf) : (d.cross e).size = d.size * e.size := by
  simp [cross, size, List.length_flatMap, List.map_const']

theorem size_all (ds : List Dnf) : (all ds).size = ds.foldr (fun d n => d.size * n) 1 := by
  induction ds with
  | nil => rfl
  | cons d ds ih => rw [all_cons, size_cross, ih, List.foldr_cons]

theorem size_any (ds : List Dnf) : (any ds).size = ds.foldr (fun d n => d.size + n) 0 := by
  induction ds with
  | nil => rfl
  | cons d ds ih =>
    rw [List.foldr_cons, ← ih]
    exact List.length_append

/-! ## Terms -/

/-- The terms of all clauses. -/
def terms (d : Dnf) : List Term := d.clauses.flatMap Clause.terms

theorem terms_ofTerms (ts : List Term) : (ofTerms ts).terms = ts := by
  simp [ofTerms, terms]

theorem mem_terms {d : Dnf} {t : Term} : t ∈ d.terms ↔ ∃ c ∈ d.clauses, t ∈ c.terms := by
  simp [terms]

/-- A product without clauses has lost the terms of both factors; any other has kept them all. -/
theorem mem_terms_cross {d e : Dnf} (hd : d.size ≠ 0) (he : e.size ≠ 0) {t : Term} :
    t ∈ (d.cross e).terms ↔ t ∈ d.terms ∨ t ∈ e.terms := by
  obtain ⟨c₀, hc₀⟩ := List.exists_mem_of_length_pos (Nat.pos_of_ne_zero hd)
  obtain ⟨e₀, he₀⟩ := List.exists_mem_of_length_pos (Nat.pos_of_ne_zero he)
  simp only [mem_terms, cross, List.mem_flatMap, List.mem_map]
  constructor
  · intro ⟨_, ⟨c, hc, c', hc', hm⟩, ht⟩
    rw [← hm] at ht
    rcases List.mem_append.1 ht with ht | ht
    · exact Or.inl ⟨c, hc, ht⟩
    · exact Or.inr ⟨c', hc', ht⟩
  · intro h
    rcases h with ⟨c, hc, ht⟩ | ⟨c', hc', ht⟩
    · exact ⟨_, ⟨c, hc, e₀, he₀, rfl⟩, List.mem_append_left _ ht⟩
    · exact ⟨_, ⟨c₀, hc₀, c', hc', rfl⟩, List.mem_append_right _ ht⟩

theorem size_all_ne_zero {ds : List Dnf} (h : ∀ d ∈ ds, d.size ≠ 0) : (all ds).size ≠ 0 := by
  induction ds with
  | nil => exact Nat.one_ne_zero
  | cons d ds ih =>
    rw [all_cons, size_cross]
    exact Nat.mul_ne_zero (h d (by simp)) (ih fun e he => h e (by simp [he]))

theorem size_any_ne_zero {ds : List Dnf} (hne : ds ≠ []) (h : ∀ d ∈ ds, d.size ≠ 0) :
    (any ds).size ≠ 0 := by
  cases ds with
  | nil => exact absurd rfl hne
  | cons d ds =>
    have hd := h d (by simp)
    rw [size_any, List.foldr_cons]
    omega

theorem mem_terms_all {ds : List Dnf} (h : ∀ d ∈ ds, d.size ≠ 0) {t : Term} :
    t ∈ (all ds).terms ↔ ∃ d ∈ ds, t ∈ d.terms := by
  induction ds with
  | nil => simp [all_nil, always, terms]
  | cons d ds ih =>
    have hds : ∀ e ∈ ds, e.size ≠ 0 := fun e he => h e (by simp [he])
    rw [all_cons, mem_terms_cross (h d (by simp)) (size_all_ne_zero hds), ih hds]
    simp

theorem mem_terms_any {ds : List Dnf} {t : Term} :
    t ∈ (any ds).terms ↔ ∃ d ∈ ds, t ∈ d.terms := by
  simp only [mem_terms, any, List.mem_flatMap]
  constructor
  · intro ⟨c, ⟨d, hd, hc⟩, ht⟩
    exact ⟨d, hd, c, hc, ht⟩
  · intro ⟨d, hd, c, hc, ht⟩
    exact ⟨c, ⟨d, hd, hc⟩, ht⟩

/-! ## Empty clauses -/

/-- No clause is empty. -/
def Filled (d : Dnf) : Prop := ∀ c ∈ d.clauses, c.terms ≠ []

theorem Filled.cross {d e : Dnf} (h : d.Filled ∨ e.Filled) : (d.cross e).Filled := by
  simp only [Filled, Dnf.cross, List.mem_flatMap, List.mem_map]
  rintro _ ⟨c, hc, c', hc', rfl⟩ hnil
  obtain ⟨hcnil, hcnil'⟩ := List.append_eq_nil_iff.1 hnil
  rcases h with h | h
  · exact h c hc hcnil
  · exact h c' hc' hcnil'

/-- One factor without empty clauses is enough for a product. -/
theorem filled_all {ds : List Dnf} {d : Dnf} (hd : d ∈ ds) (h : d.Filled) : (all ds).Filled := by
  induction ds with
  | nil => exact absurd hd (by simp)
  | cons e ds ih =>
    rw [all_cons]
    rcases List.mem_cons.1 hd with rfl | hd
    · exact Filled.cross (Or.inl h)
    · exact Filled.cross (Or.inr (ih hd))

theorem filled_any {ds : List Dnf} (h : ∀ d ∈ ds, d.Filled) : (any ds).Filled := by
  intro c hc
  obtain ⟨d, hd, hc⟩ := List.mem_flatMap.1 hc
  exact h d hd c hc

end Dnf

end BooleanQuery
