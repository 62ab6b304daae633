import BooleanQuery.Proofs.Query.Levels

/-!
# What the limit decides

The limit counts levels that are read, and the nesting counts characters. They meet in one number:
the nesting of the text without the pair that encloses it, since that pair is the one group that
costs no level. A text that compiles at all compiles under exactly the limits from that number on,
always to the same normal form, and no reading goes further down than it.

A text that is rejected for another fault may be nested beyond the limit all the same, where the
reading does not get to. So the last result asks only that the limit is not what it is rejected for:
then no higher limit changes the outcome (`compileWithin_of_le`).
-/

set_option autoImplicit false

namespace BooleanQuery

open Paren (Balanced strip nesting)

/-- Under a limit that a text is nested beyond, a text that can be read runs out of levels. -/
theorem Query.parse_eq_tooDeep {k m : Nat} {s : List Char} {q : Query} (hs : Balanced s)
    (h : (Query.parse k s).result = .ok q) (hm : m < nesting (strip s)) :
    (Query.parse m s).result = .error (.tooDeep m) := by
  have hk : nesting (strip s) < k + 1 := nesting_lt_of_parseWithin hs h
  have hle : m + 1 ≤ k + 1 := by omega
  rcases parseWithin_eq_or_tooDeep m k 0 hle s with hdeep | heq
  · exact hdeep
  · -- the reading under `m` cannot be the one that ended well: it had too few levels for that
    have hok : (parseWithin m (m + 1) 0 s).result = .ok q := by
      rw [← heq]
      exact h
    have := nesting_lt_of_parseWithin hs hok
    exact absurd hm (by omega)

theorem Query.parse_eq_of_nesting_le {m : Nat} {s : List Char} (hs : Balanced s)
    (hm : nesting (strip s) ≤ m) : Query.parse m s = Query.parse (nesting (strip s)) s :=
  parseWithin_eq_of_nesting_lt hs (Nat.lt_succ_self _) (Nat.succ_le_succ hm)

/-- The limit is reached exactly by texts that are nested beyond it, and it is all that the limit
decides: a text that compiles under some limit compiles to the same normal form under every limit
that it is not nested beyond, and under a limit that suffices the reading is, record by record, the
one under the smallest such limit. -/
theorem compileWithin_limit (e : String) :
    (∀ m l, compileWithin m e = .error (.tooDeep l) → l = m ∧ m < nesting (strip e.toList)) ∧
    (∀ k d, compileWithin k e = .ok d → ∀ m, compileWithin m e =
      if nesting (strip e.toList) ≤ m then .ok d else .error (.tooDeep m)) ∧
    (∀ m, nesting (strip e.toList) ≤ m →
      compileTraced m e = compileTraced (nesting (strip e.toList)) e) := by
  refine ⟨?_, ?_, ?_⟩
  · intro m l h
    obtain ⟨hb, hdeep⟩ := compileWithin_eq_tooDeep_iff.1 h
    obtain ⟨hl, hle⟩ := Query.le_nesting_of_parseWithin hb hdeep
    exact ⟨hl, hle⟩
  · intro k d h m
    obtain ⟨hb, q, hq, hd⟩ := compileWithin_eq_ok_iff.1 h
    by_cases hm : nesting (strip e.toList) ≤ m
    · rw [if_pos hm, compileWithin_eq_ok_iff]
      have hk : nesting (strip e.toList) ≤ k :=
        Nat.lt_succ_iff.1 (Query.nesting_lt_of_parseWithin hb hq)
      rw [Query.parse_eq_of_nesting_le hb hk] at hq
      rw [Query.parse_eq_of_nesting_le hb hm]
      exact ⟨hb, q, hq, hd⟩
    · rw [if_neg hm, compileWithin_eq_tooDeep_iff]
      exact ⟨hb, Query.parse_eq_tooDeep hb hq (Nat.lt_of_not_le hm)⟩
  · intro m hm
    by_cases hb : Balanced e.toList
    · rw [compileTraced_of_balanced m hb, compileTraced_of_balanced _ hb,
        Query.parse_eq_of_nesting_le hb hm]
    · obtain ⟨p, hp⟩ := Option.ne_none_iff_exists'.1 hb
      rw [compileTraced_of_unmatched m hp, compileTraced_of_unmatched _ hp]

/-- The outer pair costs no level, and the blanks inside it make no difference to that. -/
theorem compileWithin_limit_two_groups :
    (1 = 1 ∧ 1 < nesting (strip "( (a OR (b)) )".toList)) ∧
    (∀ m, compileWithin m "( (a OR (b)) )" =
      if nesting (strip "( (a OR (b)) )".toList) ≤ m then .ok ⟨[⟨[⟨"a"⟩]⟩, ⟨[⟨"b"⟩]⟩]⟩
      else .error (.tooDeep m)) ∧
    compileTraced 7 "( (a OR (b)) )"
      = compileTraced (nesting (strip "( (a OR (b)) )".toList)) "( (a OR (b)) )" := by
  obtain ⟨hdeep, hok, htraced⟩ := compileWithin_limit "( (a OR (b)) )"
  have h₁ : compileWithin 1 "( (a OR (b)) )" = .error (.tooDeep 1) := by decide +kernel
  have h₂ : compileWithin 2 "( (a OR (b)) )" = .ok ⟨[⟨[⟨"a"⟩]⟩, ⟨[⟨"b"⟩]⟩]⟩ := by
    decide +kernel
  exact ⟨hdeep 1 1 h₁, hok 2 _ h₂, htraced 7 (by decide +kernel)⟩

/-! ## Raising the limit -/

theorem Query.parse_eq_of_le {m m' : Nat} {s : List Char} (h : m ≤ m')
    (hdeep : (Query.parse m s).result ≠ .error (.tooDeep m)) :
    Query.parse m' s = Query.parse m s :=
  (parseWithin_eq_or_tooDeep m m' 0 (Nat.succ_le_succ h) s).resolve_left hdeep

/-- A limit that does not cut a reading short decides nothing. Under every higher one the outcome is
the same, be it a normal form or a rejection, and so are the records. -/
theorem compileWithin_of_le (e : String) {m m' : Nat} (h : m ≤ m')
    (hdeep : ∀ l, compileWithin m e ≠ .error (.tooDeep l)) :
    compileWithin m' e = compileWithin m e ∧
      (compileTraced m' e).log = (compileTraced m e).log := by
  have htraced : compileTraced m' e = compileTraced m e := by
    by_cases hb : Balanced e.toList
    · have hparse := Query.parse_eq_of_le h fun hp =>
        hdeep m (compileWithin_eq_tooDeep_iff.2 ⟨hb, hp⟩)
      rw [compileTraced_of_balanced m' hb, compileTraced_of_balanced m hb, hparse]
    · obtain ⟨p, hp⟩ := Option.ne_none_iff_exists'.1 hb
      rw [compileTraced_of_unmatched m' hp, compileTraced_of_unmatched m hp]
  unfold compileWithin
  rw [htraced]
  exact ⟨rfl, rfl⟩

/-- The operand that is rejected stands before the one that is nested too deep. -/
theorem compileWithin_of_le_mixed_first :
    0 ≤ 2 ∧ (∀ l, compileWithin 0 "x(y) AND ((a) OR b)" ≠ .error (.tooDeep l)) ∧
    compileWithin 2 "x(y) AND ((a) OR b)" = compileWithin 0 "x(y) AND ((a) OR b)" ∧
    (compileTraced 2 "x(y) AND ((a) OR b)").log = (compileTraced 0 "x(y) AND ((a) OR b)").log := by
  have hmixed : compileWithin 0 "x(y) AND ((a) OR b)" = .error (.mixed "x(y)") := by
    decide +kernel
  have hdeep : ∀ l, compileWithin 0 "x(y) AND ((a) OR b)" ≠ .error (.tooDeep l) := by
    intro l
    rw [hmixed]
    simp
  exact ⟨by decide, hdeep, compileWithin_of_le _ (by decide) hdeep⟩

end BooleanQuery
