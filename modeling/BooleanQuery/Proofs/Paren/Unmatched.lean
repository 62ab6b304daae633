import BooleanQuery.Proofs.Paren.Balance
import BooleanQuery.Text.Span

/-!
# Which parenthesis is unmatched

`unmatched?` is defined by a stack of byte offsets. What it decides, and which parenthesis it points
at, can be said by counting alone. A text is *well nested* when no prefix of it has more `)` than
`(`, and the whole of it has as many of each (`balanced_iff_wellNested`). Where some prefix has more
`)`, the answer is the first `)` that makes it so: what stands in front of that one is well nested
(`exists_of_stray_close`). Where none has, the answer is the last `(` that stays open: what stands
behind that one is well nested (`exists_of_unclosed`).

The count `openAfter?` stands between the two. It is the length of the stack, and it fails where a
prefix has too many `)`.
-/

set_option autoImplicit false

namespace BooleanQuery.Paren

open Text (byteLength)

/-- Every `)` closes a group, and every group is closed, as far as counting can tell. -/
structure WellNested (s : List Char) : Prop where
  count_le : ∀ p, p <+: s → p.count ')' ≤ p.count '('
  count_eq : s.count '(' = s.count ')'

/-! ## The count and the prefixes -/

theorem openAfter?_of_append {d e : Nat} {p t : List Char} (h : openAfter? d (p ++ t) = some e) :
    ∃ k, openAfter? d p = some k := by
  rw [openAfter?_append] at h
  obtain ⟨k, hk, -⟩ := Option.bind_eq_some_iff.1 h
  exact ⟨k, hk⟩

/-- Where the count fails, the first `)` that it fails at comes when no group is open. -/
theorem exists_of_openAfter?_eq_none {d : Nat} {s : List Char} (h : openAfter? d s = none) :
    ∃ u v, s = u ++ ')' :: v ∧ openAfter? d u = some 0 := by
  induction s generalizing d with
  | nil => exact absurd h (by simp)
  | cons c s ih =>
    -- a character that the count passes stands in front of what fails
    have step : ∀ k, openAfter? k s = none → (∀ u, openAfter? d (c :: u) = openAfter? k u) →
        ∃ u v, c :: s = u ++ ')' :: v ∧ openAfter? d u = some 0 := by
      intro k hk hd
      obtain ⟨u, v, rfl, hu⟩ := ih hk
      exact ⟨c :: u, v, rfl, (hd u).trans hu⟩
    rcases paren_cases c with rfl | rfl | hc
    · exact step (d + 1) h fun u => openAfter?_open d u
    · cases d with
      | zero => exact ⟨[], s, rfl, rfl⟩
      | succ d => exact step d h fun u => openAfter?_close_succ d u
    · rw [openAfter?_cons_of_not_isParen hc] at h
      exact step d h fun u => openAfter?_cons_of_not_isParen hc d u

theorem openAfter?_eq_none_iff {d : Nat} {s : List Char} :
    openAfter? d s = none ↔ ∃ p, p <+: s ∧ d + p.count '(' < p.count ')' := by
  constructor
  · intro h
    obtain ⟨u, v, rfl, hu⟩ := exists_of_openAfter?_eq_none h
    refine ⟨u ++ [')'], ⟨v, by simp⟩, ?_⟩
    have hcount := count_of_openAfter? hu
    rw [List.count_append, List.count_append, List.count_singleton_self, count_open_cons_close,
      List.count_nil]
    omega
  · rintro ⟨p, ⟨t, rfl⟩, hp⟩
    cases h : openAfter? d (p ++ t) with
    | none => rfl
    | some e =>
      obtain ⟨k, hk⟩ := openAfter?_of_append h
      have hcount := count_of_openAfter? hk
      omega

theorem balanced_iff_wellNested {s : List Char} : Balanced s ↔ WellNested s := by
  rw [balanced_iff]
  constructor
  · intro h
    refine ⟨?_, by simpa using count_of_openAfter? h⟩
    intro p hp
    apply Nat.le_of_not_lt
    intro hlt
    have hnone : openAfter? 0 s = none := openAfter?_eq_none_iff.2 ⟨p, hp, by omega⟩
    exact absurd (hnone.symm.trans h) (by simp)
  · intro h
    cases hs : openAfter? 0 s with
    | none =>
      obtain ⟨p, hp, hlt⟩ := openAfter?_eq_none_iff.1 hs
      have hle := h.count_le p hp
      omega
    | some e =>
      have hcount := count_of_openAfter? hs
      have heq := h.count_eq
      rw [show e = 0 by omega]

/-! ## The stack and the count -/

section Stack

variable (pos : Nat) (opened : List Nat) (s : List Char)

theorem unmatchedFrom?_open :
    unmatchedFrom? pos opened ('(' :: s) = unmatchedFrom? (pos + 1) (pos :: opened) s := rfl

theorem unmatchedFrom?_close_nil : unmatchedFrom? pos [] (')' :: s) = some pos := rfl

theorem unmatchedFrom?_close_cons (p : Nat) :
    unmatchedFrom? pos (p :: opened) (')' :: s) = unmatchedFrom? (pos + 1) opened s := rfl

theorem unmatchedFrom?_cons_of_not_isParen {c : Char} (h : isParen c = false) :
    unmatchedFrom? pos opened (c :: s) = unmatchedFrom? (pos + c.utf8Size) opened s := by
  obtain ⟨hopen, hclose⟩ := isParen_eq_false_iff.1 h
  simp [unmatchedFrom?, hopen, hclose]

end Stack

/-- With the stack empty, a `)` is the answer. -/
theorem unmatchedFrom?_append (pos : Nat) (opened : List Nat) {u : List Char}
    (h : openAfter? opened.length u = some 0) (v : List Char) :
    unmatchedFrom? pos opened (u ++ ')' :: v) = some (pos + byteLength u) := by
  induction u generalizing pos opened with
  | nil =>
    obtain rfl : opened = [] := List.length_eq_zero_iff.1 (by simpa using h)
    exact unmatchedFrom?_close_nil pos v
  | cons c u ih =>
    rw [List.cons_append, byteLength, ← Nat.add_assoc]
    rcases paren_cases c with rfl | rfl | hc
    · exact ih (pos + 1) (pos :: opened) h
    · cases opened with
      | nil => exact absurd h (by simp)
      | cons p opened => exact ih (pos + 1) opened h
    · rw [openAfter?_cons_of_not_isParen hc] at h
      rw [unmatchedFrom?_cons_of_not_isParen _ _ _ hc]
      exact ih (pos + c.utf8Size) opened h

/-- Where no `)` is the answer, it is a `(` of the text, or one of the groups that were open in front
of it: the one that is the innermost when the text has closed `j` of them and all of its own. -/
theorem unmatchedFrom?_cases {pos q : Nat} {opened : List Nat} {s : List Char}
    (h : unmatchedFrom? pos opened s = some q) (hopen : openAfter? opened.length s ≠ none) :
    (∃ u v, s = u ++ '(' :: v ∧ Balanced v ∧ q = pos + byteLength u) ∨
      ∃ j, opened[j]? = some q ∧ openAfter? j s = some 0 := by
  induction s generalizing pos opened with
  | nil =>
    refine Or.inr ⟨0, ?_, rfl⟩
    rw [← List.head?_eq_getElem?]
    exact h
  | cons c s ih =>
    -- a `(` of the rest is one of the text
    have inside : ∀ {pos'}, pos' = pos + c.utf8Size →
        (∃ u v, s = u ++ '(' :: v ∧ Balanced v ∧ q = pos' + byteLength u) →
        ∃ u v, c :: s = u ++ '(' :: v ∧ Balanced v ∧ q = pos + byteLength u := by
      rintro _ rfl ⟨u, v, rfl, hv, rfl⟩
      exact ⟨c :: u, v, rfl, hv, by rw [byteLength, Nat.add_assoc]⟩
    rcases paren_cases c with rfl | rfl | hc
    · rw [unmatchedFrom?_open] at h
      rcases ih h hopen with hin | ⟨j, hj, hs⟩
      · exact Or.inl (inside rfl hin)
      · cases j with
        | zero =>
          obtain rfl : pos = q := by simpa using hj
          exact Or.inl ⟨[], s, rfl, balanced_iff.2 hs, rfl⟩
        | succ j => exact Or.inr ⟨j, by simpa using hj, hs⟩
    · cases opened with
      | nil => exact absurd rfl hopen
      | cons p opened =>
        rw [unmatchedFrom?_close_cons] at h
        rcases ih h hopen with hin | ⟨j, hj, hs⟩
        · exact Or.inl (inside rfl hin)
        · exact Or.inr ⟨j + 1, by simpa using hj, hs⟩
    · rw [unmatchedFrom?_cons_of_not_isParen _ _ _ hc] at h
      rw [openAfter?_cons_of_not_isParen hc] at hopen
      rcases ih h hopen with hin | ⟨j, hj, hs⟩
      · exact Or.inl (inside rfl hin)
      · exact Or.inr ⟨j, hj, by rw [openAfter?_cons_of_not_isParen hc, hs]⟩

/-! ## The answer -/

/-- Of the `)` that close nothing, the first one is the answer. -/
theorem exists_of_stray_close {s : List Char} (h : ∃ p, p <+: s ∧ p.count '(' < p.count ')') :
    ∃ u v, s = u ++ ')' :: v ∧ WellNested u ∧ unmatched? s = some (byteLength u) := by
  have hnone : openAfter? 0 s = none := openAfter?_eq_none_iff.2 (by simpa using h)
  obtain ⟨u, v, rfl, hu⟩ := exists_of_openAfter?_eq_none hnone
  refine ⟨u, v, rfl, balanced_iff_wellNested.1 (balanced_iff.2 hu), ?_⟩
  rw [unmatched?, unmatchedFrom?_append 0 [] hu, Nat.zero_add]

/-- Where each `)` closes a group and yet the text is not balanced, the last `(` that stays open is
the answer. -/
theorem exists_of_unclosed {s : List Char} (hle : ∀ p, p <+: s → p.count ')' ≤ p.count '(')
    (h : ¬ WellNested s) :
    ∃ u v, s = u ++ '(' :: v ∧ WellNested v ∧ unmatched? s = some (byteLength u) := by
  have hsome : openAfter? 0 s ≠ none := by
    intro hnone
    obtain ⟨p, hp, hlt⟩ := openAfter?_eq_none_iff.1 hnone
    have := hle p hp
    omega
  obtain ⟨q, hq⟩ := Option.ne_none_iff_exists'.1 (mt balanced_iff_wellNested.1 h)
  rcases unmatchedFrom?_cases hq hsome with ⟨u, v, rfl, hv, rfl⟩ | ⟨j, hj, -⟩
  · exact ⟨u, v, rfl, balanced_iff_wellNested.1 hv, by rw [hq, Nat.zero_add]⟩
  · exact absurd hj (by simp)

/-- Either way the answer is the place of a parenthesis of the text. -/
theorem exists_of_unmatched? {s : List Char} {p : Nat} (h : unmatched? s = some p) :
    ∃ u c v, s = u ++ c :: v ∧ isParen c = true ∧ p = byteLength u := by
  by_cases hstray : ∃ q, q <+: s ∧ q.count '(' < q.count ')'
  · obtain ⟨u, v, hs, -, hu⟩ := exists_of_stray_close hstray
    exact ⟨u, ')', v, hs, rfl, Option.some.inj (h.symm.trans hu)⟩
  · have hle : ∀ q, q <+: s → q.count ')' ≤ q.count '(' := fun q hq =>
      Nat.not_lt.1 fun hlt => hstray ⟨q, hq, hlt⟩
    have hnot : ¬ WellNested s := by
      intro hw
      have hnone : unmatched? s = none := balanced_iff_wellNested.2 hw
      exact absurd (h.symm.trans hnone) (by simp)
    obtain ⟨u, v, hs, -, hu⟩ := exists_of_unclosed hle hnot
    exact ⟨u, '(', v, hs, rfl, Option.some.inj (h.symm.trans hu)⟩

end BooleanQuery.Paren
