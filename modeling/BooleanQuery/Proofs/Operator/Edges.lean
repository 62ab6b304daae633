import BooleanQuery.Proofs.Operator.Separates

/-!
# Where a blank operand stands

An operand has a separator in front of it or begins the text, and the same holds behind it
(`Flanked`); and so has an operand of an operand. In a single-spaced text no two separators have a
blank between them. So an operand is blank only at an end of the text: the text is blank as a whole
or begins or ends with a separator (`Flanked.edge`).
-/

set_option autoImplicit false

namespace BooleanQuery.Operator

open Text (isBlankText SingleSpaced StartsSolid EndsSolid)

/-- On each side of `o` in `s` there is a separator, or nothing. -/
def Flanked (o s : List Char) : Prop :=
  ∃ l r, s = l ++ o ++ r ∧ (l = [] ∨ ∃ op : Operator, op.sep <:+ l) ∧
    (r = [] ∨ ∃ op : Operator, op.sep <+: r)

theorem Flanked.trans {o a s : List Char} (h : Flanked o a) (ha : Flanked a s) : Flanked o s := by
  obtain ⟨l, r, rfl, hl, hr⟩ := h
  obtain ⟨l', r', rfl, hl', hr'⟩ := ha
  refine ⟨l' ++ l, r ++ r', by simp, ?_, ?_⟩
  · rcases hl with rfl | ⟨op, hl⟩
    · simpa using hl'
    · exact Or.inr ⟨op, hl.trans (List.suffix_append l' l)⟩
  · rcases hr with rfl | ⟨op, hr⟩
    · simpa using hr'
    · exact Or.inr ⟨op, hr.trans (List.prefix_append r r')⟩

theorem flanked_of_mem_join (op : Operator) {ps : List (List Char)} {p : List Char} (h : p ∈ ps) :
    Flanked p (op.sep.intercalate ps) := by
  induction ps with
  | nil => exact absurd h (by simp)
  | cons q ps ih =>
    cases ps with
    | nil =>
      obtain rfl : p = q := by simpa using h
      exact ⟨[], [], by simp, Or.inl rfl, Or.inl rfl⟩
    | cons q' ps =>
      rw [List.intercalate_cons_cons, List.append_assoc]
      rcases List.mem_cons.1 h with rfl | h
      · exact ⟨[], op.sep ++ op.sep.intercalate (q' :: ps), by simp, Or.inl rfl,
          Or.inr ⟨op, List.prefix_append _ _⟩⟩
      · obtain ⟨l, r, hjoin, hl, hr⟩ := ih h
        refine ⟨q ++ (op.sep ++ l), r, by simp [hjoin], Or.inr ?_, hr⟩
        rcases hl with rfl | ⟨op', hl⟩
        · exact ⟨op, by simp⟩
        · exact ⟨op', (hl.trans (List.suffix_append _ l)).trans (List.suffix_append q _)⟩

theorem flanked_of_mem_operands {op : Operator} {s o : List Char} (h : o ∈ op.operands s) :
    Flanked o s := by
  have := flanked_of_mem_join op h
  rwa [intercalate_operands] at this

/-- A blank operand of a single-spaced text is all of it, or leaves a separator at an end of it. -/
theorem Flanked.edge {o s : List Char} (h : Flanked o s) (hs : SingleSpaced s)
    (ho : isBlankText o = true) :
    isBlankText s = true ∨ ∃ op : Operator, op.sep <+: s ∨ op.sep <:+ s := by
  obtain ⟨l, r, rfl, hl, hr⟩ := h
  rcases hl with rfl | ⟨op, u, rfl⟩
  · rcases hr with rfl | ⟨op, v, rfl⟩
    · exact Or.inl (by simpa using ho)
    · by_cases hne : o = []
      · exact Or.inr ⟨op, Or.inl ⟨v, by simp [hne]⟩⟩
      · have hends : EndsSolid o := endsSolid_of_sep hs hne
        exact absurd ho (by simp [hends.not_isBlankText])
  · rw [List.append_assoc, List.append_assoc] at hs
    by_cases hend : o ++ r = []
    · exact Or.inr ⟨op, Or.inr ⟨u, by simpa using hend⟩⟩
    · -- what follows the separator begins with no blank, so it is neither `o` nor a separator
      have hstarts : StartsSolid (o ++ r) := startsSolid_of_sep hs hend
      by_cases hne : o = []
      · subst hne
        rcases hr with rfl | ⟨op', v, rfl⟩
        · exact absurd rfl hend
        · exact absurd rfl (hstarts.ne_space _)
      · exact absurd ho (by simp [(hstarts.left hne).not_isBlankText])

end BooleanQuery.Operator
