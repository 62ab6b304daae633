import BooleanQuery.Proofs.Compile.Terms

/-!
# Compiling what was written

A normal form is written without parentheses, and so compiling the text again has nothing but the
operators to go by. It always succeeds, and the new normal form is written with the same text
(`compile_written_stable`). The clauses and terms need not be the same ones: a term may end with an
operator word that makes up an operator with the space behind it.

`Dnf.Separable` says that this happens nowhere, and it decides the matter
(`compile_written_iff_separable`). Terms without any operator word are always separable, and for
them writing is an encoding that compiling undoes (`compileWithin_written_of_literal`).

A `RoundTrip` agrees under the same condition (`agrees_iff_separable`), and always does if it starts
with a text that was written (`roundTrip_written`).
-/

set_option autoImplicit false

namespace BooleanQuery

/-! ## The text of a normal form -/

namespace Dnf

variable {d : Dnf}

theorem WellFormed.atomic_of_mem (h : d.WellFormed) {c : Clause} (hc : c ∈ d.clauses) {t : Term}
    (ht : t ∈ c.terms) : t.Atomic :=
  h.atomic t (mem_terms.2 ⟨c, hc, ht⟩)

theorem WellFormed.tidy_clause (h : d.WellFormed) {c : Clause} (hc : c ∈ d.clauses) :
    Tidy c.written.toList := by
  rw [Clause.toList_written]
  refine Tidy.join (by simpa using h.filled c hc) ?_
  rw [List.forall_mem_map]
  exact fun t ht => (h.atomic_of_mem hc ht).tidy

theorem WellFormed.tidy_written (h : d.WellFormed) : Tidy d.written.toList := by
  rw [toList_written]
  refine Tidy.join (by simpa using h.ne_nil) ?_
  rw [List.forall_mem_map]
  exact fun c hc => h.tidy_clause hc

/-- No operator can be read where one was not written. -/
@[mk_iff] structure Separable (d : Dnf) : Prop where
  /-- No term ends with `AND` that another one follows. -/
  term_seams : ∀ c ∈ d.clauses, ∀ t ∈ c.terms.dropLast, ¬ Operator.and.opening <:+ t.text.toList
  /-- No clause is written with an `OR` in it, … -/
  clauses_whole : ∀ c ∈ d.clauses, ¬ Operator.or.sep <:+: c.written.toList
  /-- … nor with one at its end that another clause follows. -/
  clause_seams : ∀ c ∈ d.clauses.dropLast, ¬ Operator.or.opening <:+ c.written.toList

instance (d : Dnf) : Decidable d.Separable := decidable_of_iff' _ (separable_iff d)

theorem WellFormed.operands_clause_iff (h : d.WellFormed) {c : Clause} (hc : c ∈ d.clauses) :
    Operator.and.operands c.written.toList = c.terms.map (fun t => t.text.toList) ↔
      ∀ t ∈ c.terms.dropLast, ¬ Operator.and.opening <:+ t.text.toList := by
  rw [Clause.toList_written, Operator.operands_intercalate_iff (by simpa using h.filled c hc)]
  · rw [Operator.separates_iff, ← List.map_dropLast, List.forall_mem_map, List.forall_mem_map]
    exact and_iff_right fun t ht => (h.atomic_of_mem hc ht).whole .and
  · rw [List.forall_mem_map]
    exact fun t ht => (h.atomic_of_mem hc ht).tidy.hasParen_eq

theorem WellFormed.operands_written_iff (h : d.WellFormed) :
    Operator.or.operands d.written.toList = d.clauses.map (fun c => c.written.toList) ↔
      (∀ c ∈ d.clauses, ¬ Operator.or.sep <:+: c.written.toList) ∧
      ∀ c ∈ d.clauses.dropLast, ¬ Operator.or.opening <:+ c.written.toList := by
  rw [toList_written, Operator.operands_intercalate_iff (by simpa using h.ne_nil)]
  · rw [Operator.separates_iff, ← List.map_dropLast, List.forall_mem_map, List.forall_mem_map]
  · rw [List.forall_mem_map]
    exact fun c hc => (h.tidy_clause hc).hasParen_eq

/-- The clauses and terms of a normal form are found again in its text exactly if it is
separable. -/
theorem WellFormed.ofPlain_written_iff (h : d.WellFormed) :
    ofPlain d.written.toList = d ↔ d.Separable := by
  have hand : (∀ c ∈ d.clauses,
        Operator.and.operands c.written.toList = c.terms.map fun t => t.text.toList) ↔
      ∀ c ∈ d.clauses, ∀ t ∈ c.terms.dropLast, ¬ Operator.and.opening <:+ t.text.toList :=
    forall₂_congr fun c hc => h.operands_clause_iff hc
  rw [h.tidy_written.ofPlain_eq_iff, h.operands_written_iff, hand, separable_iff, and_comm]

theorem WellFormed.compileWithin_written_iff (h : d.WellFormed) (limit : Nat) :
    compileWithin limit d.written = .ok d ↔ d.Separable := by
  rw [h.tidy_written.compileWithin limit, Except.ok.injEq, h.ofPlain_written_iff]

/-! ## Terms without operator words -/

/-- Every clause has a term, and every term can only be read as one. -/
def Literal (d : Dnf) : Prop :=
  d.clauses ≠ [] ∧ ∀ c ∈ d.clauses, c.terms ≠ [] ∧ ∀ t ∈ c.terms, Clean t.text.toList

instance (d : Dnf) : Decidable d.Literal :=
  inferInstanceAs (Decidable
    (d.clauses ≠ [] ∧ ∀ c ∈ d.clauses, c.terms ≠ [] ∧ ∀ t ∈ c.terms, Clean t.text.toList))

theorem Literal.wellFormed (h : d.Literal) : d.WellFormed := by
  refine ⟨h.1, fun c hc => (h.2 c hc).1, ?_⟩
  intro t ht
  obtain ⟨c, hc, ht⟩ := mem_terms.1 ht
  exact ((h.2 c hc).2 t ht).atomic

theorem Literal.inert (h : d.Literal) {c : Clause} (hc : c ∈ d.clauses) (op : Operator) :
    ∀ p ∈ c.terms.map (fun t => t.text.toList), op.Inert p := by
  rw [List.forall_mem_map]
  exact fun t ht => ((h.2 c hc).2 t ht).inert op

theorem Literal.operands_clause (h : d.Literal) {c : Clause} (hc : c ∈ d.clauses) :
    Operator.and.operands c.written.toList = c.terms.map fun t => t.text.toList := by
  rw [Clause.toList_written]
  exact Operator.operands_intercalate_of_inert (by simpa using (h.2 c hc).1) (h.inert hc .and)

theorem Literal.operands_written (h : d.Literal) :
    Operator.or.operands d.written.toList = d.clauses.map fun c => c.written.toList := by
  rw [toList_written]
  apply Operator.operands_intercalate_of_inert (by simpa using h.1)
  rw [List.forall_mem_map]
  intro c hc
  rw [Clause.toList_written]
  exact Operator.inert_join (by decide) (by simpa using (h.2 c hc).1) (h.inert hc .or)

theorem Literal.compileWithin_written (h : d.Literal) (limit : Nat) :
    compileWithin limit d.written = .ok d := by
  have htidy := h.wellFormed.tidy_written
  have hplain : ofPlain d.written.toList = d :=
    htidy.ofPlain_eq_iff.2 ⟨h.operands_written, fun _ hc => h.operands_clause hc⟩
  rw [htidy.compileWithin limit, hplain]

/-- A well-formed normal form is literal if no operator word is among the words of its terms. -/
theorem WellFormed.literal (h : d.WellFormed)
    (hwords : ∀ t ∈ d.terms, ∀ op : Operator, op.keyword.toList ∉ t.text.toList.splitOn ' ') :
    d.Literal := by
  refine ⟨h.ne_nil, fun c hc => ⟨h.filled c hc, fun t ht => ?_⟩⟩
  have htidy := (h.atomic_of_mem hc ht).tidy
  exact ⟨htidy.solid.ne_nil, htidy.spaced.collapse_eq, htidy.solid.trim_eq, htidy.hasParen_eq,
    hwords t (mem_terms.2 ⟨c, hc, ht⟩)⟩

end Dnf

/-- A normal form of literal terms is what its text compiles to, under every limit, so no two of
them are written alike. -/
theorem compileWithin_written_of_literal :
    (∀ d : Dnf, d.Literal → ∀ limit, compileWithin limit d.written = .ok d) ∧
      ∀ d d' : Dnf, d.Literal → d'.Literal → d.written = d'.written → d = d' := by
  constructor
  · intro d h limit
    exact h.compileWithin_written limit
  · intro d d' h h' hwritten
    have hd := h.compileWithin_written 0
    have hd' := h'.compileWithin_written 0
    rw [hwritten] at hd
    exact Except.ok.inj (hd.symm.trans hd')

/-- Operators inside words, in other case or twice are no operators. -/
theorem compileWithin_written_of_literal_inner_keywords :
    Dnf.Literal ⟨[⟨[⟨"ANDROID and"⟩, ⟨"x"⟩]⟩, ⟨[⟨"ORANGE"⟩]⟩, ⟨[⟨"ORANGE"⟩]⟩]⟩ ∧
      (∀ limit, compileWithin limit "ANDROID and AND x OR ORANGE OR ORANGE"
        = .ok ⟨[⟨[⟨"ANDROID and"⟩, ⟨"x"⟩]⟩, ⟨[⟨"ORANGE"⟩]⟩, ⟨[⟨"ORANGE"⟩]⟩]⟩) ∧
      ∀ d : Dnf, d.Literal → d.written = "ANDROID and AND x OR ORANGE OR ORANGE" →
        d = ⟨[⟨[⟨"ANDROID and"⟩, ⟨"x"⟩]⟩, ⟨[⟨"ORANGE"⟩]⟩, ⟨[⟨"ORANGE"⟩]⟩]⟩ := by
  have h : Dnf.Literal ⟨[⟨[⟨"ANDROID and"⟩, ⟨"x"⟩]⟩, ⟨[⟨"ORANGE"⟩]⟩, ⟨[⟨"ORANGE"⟩]⟩]⟩ := by
    decide +kernel
  obtain ⟨hcompile, hinjective⟩ := compileWithin_written_of_literal
  exact ⟨h, hcompile _ h, fun d hd => hinjective d _ hd h⟩

/-! ## All normal forms that are compiled -/

/-- What is written compiles to something that is written the same, and that is then all that
compiling the text gives. -/
theorem compile_written_stable (limit : Nat) (e : String) (d : Dnf)
    (h : compileWithin limit e = .ok d) :
    ∃ d₂, compile d.written = .ok d₂ ∧ d₂.written = d.written ∧ compile d₂.written = .ok d₂ := by
  have htidy := (wellFormed_of_compileWithin h).tidy_written
  have hwritten : (Dnf.ofPlain d.written.toList).written = d.written :=
    String.toList_inj.1 htidy.written_ofPlain
  have hcompile := htidy.compileWithin defaultLimit
  exact ⟨_, hcompile, hwritten, by rw [hwritten]; exact hcompile⟩

/-- The term that leaves its group takes the space behind it for an operator of its own. -/
theorem compile_written_stable_trailing_keyword :
    compileWithin 1 "(x AND) AND b" = .ok ⟨[⟨[⟨"x AND"⟩, ⟨"b"⟩]⟩]⟩ ∧
      ∃ d₂, compile "x AND AND b" = .ok d₂ ∧ d₂.written = "x AND AND b" ∧
        compile d₂.written = .ok d₂ := by
  have h : compileWithin 1 "(x AND) AND b" = .ok ⟨[⟨[⟨"x AND"⟩, ⟨"b"⟩]⟩]⟩ := by decide +kernel
  exact ⟨h, compile_written_stable 1 _ _ h⟩

/-- Compiling the text of a normal form gives that normal form back exactly if no operator can be
read where one was not written, and so in particular if no term has an operator word. -/
theorem compile_written_iff_separable (limit : Nat) (e : String) (d : Dnf)
    (h : compileWithin limit e = .ok d) :
    (compile d.written = .ok d ↔ d.Separable) ∧
      ((∀ t ∈ d.terms, ∀ op : Operator, op.keyword.toList ∉ t.text.toList.splitOn ' ') →
        compile d.written = .ok d) := by
  have hd := wellFormed_of_compileWithin h
  exact ⟨hd.compileWithin_written_iff defaultLimit,
    fun hwords => (hd.literal hwords).compileWithin_written defaultLimit⟩

/-- Operator words at the edges of terms do no harm where they meet no other space. -/
theorem compile_written_iff_separable_leading_keyword :
    compileWithin 1 "x AND (AND y) OR (OR)" = .ok ⟨[⟨[⟨"AND y"⟩, ⟨"x"⟩]⟩, ⟨[⟨"OR"⟩]⟩]⟩ ∧
      Dnf.Separable ⟨[⟨[⟨"AND y"⟩, ⟨"x"⟩]⟩, ⟨[⟨"OR"⟩]⟩]⟩ ∧
      compile "AND y AND x OR OR" = .ok ⟨[⟨[⟨"AND y"⟩, ⟨"x"⟩]⟩, ⟨[⟨"OR"⟩]⟩]⟩ := by
  have h : compileWithin 1 "x AND (AND y) OR (OR)"
      = .ok ⟨[⟨[⟨"AND y"⟩, ⟨"x"⟩]⟩, ⟨[⟨"OR"⟩]⟩]⟩ := by decide +kernel
  have hsep : Dnf.Separable ⟨[⟨[⟨"AND y"⟩, ⟨"x"⟩]⟩, ⟨[⟨"OR"⟩]⟩]⟩ := by decide +kernel
  exact ⟨h, hsep, (compile_written_iff_separable 1 _ _ h).1.2 hsep⟩

/-- Not every normal form that is compiled is separable. -/
theorem compile_written_trailing_keyword :
    compile "(x AND) AND b" = .ok ⟨[⟨[⟨"x AND"⟩, ⟨"b"⟩]⟩]⟩ ∧
      compile "x AND AND b" = .ok ⟨[⟨[⟨"x"⟩, ⟨"AND b"⟩]⟩]⟩ ∧
      ¬ ∀ limit e d, compileWithin limit e = .ok d → compile d.written = .ok d := by
  have h : compile "(x AND) AND b" = .ok ⟨[⟨[⟨"x AND"⟩, ⟨"b"⟩]⟩]⟩ := by decide +kernel
  have hagain : compile "x AND AND b" = .ok ⟨[⟨[⟨"x"⟩, ⟨"AND b"⟩]⟩]⟩ := by decide +kernel
  refine ⟨h, hagain, fun hall => ?_⟩
  exact absurd (hagain.symm.trans (hall defaultLimit _ _ h)) (by decide +kernel)

/-! ## Round trips -/

theorem RoundTrip.agrees_iff {r : RoundTrip} : r.agrees ↔ r.again = .ok r.first := by
  unfold agrees
  split
  · next d h => rw [h, decide_eq_true_iff, Except.ok.injEq]
  · next e h => simp [h]

section RoundTrip

variable {limit : Nat} {e : String} {r : RoundTrip}

/-- A round trip is rejected as its first half is. -/
theorem roundTrip_eq_error_iff {x : Rejection} :
    roundTrip limit e = .error x ↔ compileWithin limit e = .error x := by
  unfold roundTrip
  cases compileWithin limit e <;> simp [Except.map]

theorem roundTrip_eq_ok_iff :
    roundTrip limit e = .ok r ↔
      compileWithin limit e = .ok r.first ∧ r.again = compile r.first.written := by
  obtain ⟨first, again⟩ := r
  unfold roundTrip
  cases compileWithin limit e with
  | error x => simp [Except.map]
  | ok d =>
    simp only [Except.map, Except.ok.injEq, RoundTrip.mk.injEq]
    constructor
    · rintro ⟨rfl, rfl⟩
      exact ⟨rfl, rfl⟩
    · rintro ⟨rfl, rfl⟩
      exact ⟨rfl, rfl⟩

theorem wellFormed_of_roundTrip (h : roundTrip limit e = .ok r) : r.first.WellFormed :=
  wellFormed_of_compileWithin (roundTrip_eq_ok_iff.1 h).1

/-- The second half succeeds, and its result is written the same. -/
theorem again_of_roundTrip (h : roundTrip limit e = .ok r) :
    ∃ d, r.again = .ok d ∧ d.written = r.first.written := by
  have htidy := (wellFormed_of_roundTrip h).tidy_written
  rw [(roundTrip_eq_ok_iff.1 h).2]
  exact ⟨_, htidy.compileWithin defaultLimit, String.toList_inj.1 htidy.written_ofPlain⟩

theorem agrees_iff_separable (h : roundTrip limit e = .ok r) : r.agrees ↔ r.first.Separable := by
  rw [RoundTrip.agrees_iff, (roundTrip_eq_ok_iff.1 h).2]
  exact (wellFormed_of_roundTrip h).compileWithin_written_iff defaultLimit

/-- A round trip that starts with what was written agrees. -/
theorem roundTrip_written (h : roundTrip limit e = .ok r) :
    ∃ r', roundTrip defaultLimit r.first.written = .ok r' ∧ r'.agrees := by
  obtain ⟨d, hagain, hwritten⟩ := again_of_roundTrip h
  rw [(roundTrip_eq_ok_iff.1 h).2] at hagain
  refine ⟨⟨d, compile d.written⟩, roundTrip_eq_ok_iff.2 ⟨hagain, rfl⟩, RoundTrip.agrees_iff.2 ?_⟩
  show compile d.written = .ok d
  rw [hwritten, hagain]

end RoundTrip

end BooleanQuery
