import BooleanQuery.Proofs.Operator.Inert

/-!
# Seams

A separator is read off a text by its characters, so it can arise where two texts meet. There is
one way for it to do so in front of another separator: the first text ends with all of a separator
but its last space (`opening`), and takes the space that follows for it. Where this is not so, the
cut goes through the first text as if it stood alone (`cut_append_sep`).

The walk takes what it meets first. So a part ends in front of every separator that stands outside
all groups (`prefix_of_cut`), and no part is cut any further (`cut_of_cut`).

A space at an end of a text is part of the first or the last operand, if no operand is empty
(`operands_cons_space`, `operands_append_space`).
-/

set_option autoImplicit false

namespace BooleanQuery.Operator

open Paren (openAfter? Balanced hasParen)

variable {op : Operator}

/-- A separator without the space that ends it. A text that ends so makes a whole separator of the
space that follows it. -/
def opening (op : Operator) : List Char := ' ' :: op.keyword.toList

/-- A separator that begins in front of another one and is not over by then has all but its last
space in front of it. -/
theorem eq_opening_of_sep_prefix {s t : List Char} (hne : s ≠ []) (hs : ¬ op.sep <+: s)
    (h : op.sep <+: s ++ (op.sep ++ t)) : s = op.opening := by
  obtain ⟨x, hx⟩ : s <+: op.sep :=
    (List.prefix_or_prefix_of_prefix h (List.prefix_append s _)).resolve_left hs
  cases x with
  | nil => exact absurd ⟨[], by simp [← hx]⟩ hs
  | cons c x =>
    -- what is left of the separator begins like the other one, with a space
    have hrest : s ++ c :: x <+: s ++ (op.sep ++ t) := by rwa [hx]
    obtain ⟨rfl, -⟩ := List.cons_prefix_cons.1 ((List.prefix_append_right_inj s).1 hrest)
    obtain ⟨d, s, rfl⟩ := List.exists_cons_of_ne_nil hne
    obtain ⟨rfl, hkey⟩ : d = ' ' ∧ s ++ ' ' :: x = op.keyword.toList ++ [' '] := by
      simpa [sep] using hx
    -- and as the keyword has no space, that is the space that ends the separator
    obtain rfl | ⟨y, e, rfl⟩ := List.eq_nil_or_concat x
    · rw [opening, List.append_cancel_right hkey]
    · rw [List.concat_eq_append, ← List.cons_append, ← List.append_assoc] at hkey
      have hmem : ' ' ∈ op.keyword.toList := (List.append_inj' hkey rfl).1 ▸ by simp
      exact absurd hmem (IsWord.not_mem (isWord_keyword op))

/-- Two texts with a separator between them are cut one after the other, if no group is open at the
seam and the first does not end with an opening. -/
theorem cut_append_sep {depth : Nat} {s : List Char} (h : openAfter? depth s = some 0)
    (hs : ¬ op.opening <:+ s) (t : List Char) :
    cut op depth (s ++ (op.sep ++ t)) = cut op depth s ++ cut op 0 t := by
  fun_induction cut op depth s with
  | case1 depth =>
    obtain rfl : depth = 0 := by simpa using h
    exact cut_sep_append t
  | case2 depth c s hsep ih =>
    obtain ⟨rfl, u, hu⟩ := hsep
    rw [← hu, List.drop_left] at ih ⊢
    rw [← hu, (balanced_sep op).openAfter?_append] at h
    rw [← hu] at hs
    have hu := ih h fun hu => hs (hu.trans (List.suffix_append _ _))
    rw [List.append_assoc, cut_sep_append, hu, List.cons_append]
  | case3 depth c s hsep ih =>
    have hfront : ¬ (depth = 0 ∧ op.sep <+: c :: (s ++ (op.sep ++ t))) := by
      rintro ⟨hdepth, hpre⟩
      have := eq_opening_of_sep_prefix (by simp) (fun hpre => hsep ⟨hdepth, hpre⟩) hpre
      exact hs (this ▸ List.suffix_rfl)
    have hrest := ih ((openAfter?_cons h s).symm.trans h) fun hsuf =>
      hs (hsuf.trans (List.suffix_cons c s))
    rw [List.cons_append, cut_cons hfront, hrest]
    obtain ⟨p, ps, hps⟩ := List.exists_cons_of_ne_nil (cut_ne_nil op (depthAfter depth c) s)
    rw [hps, List.cons_append, List.modifyHead_cons, List.modifyHead_cons, List.cons_append]

theorem operands_append_sep {s : List Char} (hb : Balanced s) (hs : ¬ op.opening <:+ s)
    (t : List Char) : op.operands (s ++ (op.sep ++ t)) = op.operands s ++ op.operands t := by
  rw [operands_eq_cut, operands_eq_cut, operands_eq_cut,
    cut_append_sep (Paren.balanced_iff.1 hb) hs]

/-- The first part ends in front of every separator that stands outside all groups. -/
theorem prefix_of_cut {depth : Nat} {u v p : List Char} {ps : List (List Char)}
    (h : openAfter? depth u = some 0) (hcut : cut op depth (u ++ (op.sep ++ v)) = p :: ps) :
    p <+: u := by
  induction u generalizing depth p ps with
  | nil =>
    obtain rfl : depth = 0 := by simpa using h
    rw [List.nil_append, cut_sep_append] at hcut
    rw [(List.cons.inj hcut).1]
  | cons c u ih =>
    by_cases hsep : depth = 0 ∧ op.sep <+: c :: (u ++ (op.sep ++ v))
    · rw [List.cons_append, cut, if_pos hsep] at hcut
      rw [← (List.cons.inj hcut).1]
      exact List.nil_prefix
    · rw [List.cons_append, cut_cons hsep] at hcut
      obtain ⟨q, qs, hq⟩ :=
        List.exists_cons_of_ne_nil (cut_ne_nil op (depthAfter depth c) (u ++ (op.sep ++ v)))
      rw [hq, List.modifyHead_cons] at hcut
      obtain ⟨rfl, -⟩ := List.cons.inj hcut
      exact List.cons_prefix_cons.2 ⟨rfl, ih ((openAfter?_cons h u).symm.trans h) hq⟩

/-- A first part ends with no opening: it would have ended in front of that. -/
theorem not_opening_suffix_of_cut {s t : List Char} {ps : List (List Char)}
    (h : hasParen s = false) (hcut : cut op 0 (s ++ (op.sep ++ t)) = s :: ps) :
    ¬ op.opening <:+ s := by
  rintro ⟨u, rfl⟩
  have hu : Balanced u := Paren.balanced_of_not_hasParen
    (Paren.hasParen_of_infix h (List.prefix_append u op.opening).isInfix)
  -- the opening and the space behind it are a separator, one space further to the left
  have hshift : u ++ op.opening ++ (op.sep ++ t)
      = u ++ (op.sep ++ (op.keyword.toList ++ ' ' :: t)) := by simp [sep, opening]
  rw [hshift] at hcut
  have hlen := (prefix_of_cut (Paren.balanced_iff.1 hu) hcut).length_le
  simp only [List.length_append, opening, List.length_cons] at hlen
  omega

theorem prefix_intercalate (sep p : List Char) (ps : List (List Char)) :
    p <+: sep.intercalate (p :: ps) := by
  cases ps with
  | nil => simp
  | cons q ps =>
    rw [List.intercalate_cons_cons, List.append_assoc]
    exact List.prefix_append p _

/-- The parts of a text are not cut any further. -/
theorem cut_of_cut {depth : Nat} {s p : List Char} {ps : List (List Char)}
    (hcut : cut op depth s = p :: ps) : cut op depth p = [p] ∧ ∀ q ∈ ps, cut op 0 q = [q] := by
  fun_induction cut op depth s generalizing p ps with
  | case1 depth =>
    obtain ⟨rfl, rfl⟩ := List.cons.inj hcut
    exact ⟨cut_nil depth, by simp⟩
  | case2 depth c s hsep ih =>
    obtain ⟨rfl, rfl⟩ := List.cons.inj hcut
    obtain ⟨q, qs, hq⟩ :=
      List.exists_cons_of_ne_nil (cut_ne_nil op 0 ((c :: s).drop op.sep.length))
    obtain ⟨hq₁, hqs⟩ := ih hq
    refine ⟨cut_nil depth, ?_⟩
    rw [hq]
    exact List.forall_mem_cons.2 ⟨hq₁, hqs⟩
  | case3 depth c s hsep ih =>
    obtain ⟨q, qs, hq⟩ := List.exists_cons_of_ne_nil (cut_ne_nil op (depthAfter depth c) s)
    rw [hq, List.modifyHead_cons] at hcut
    obtain ⟨rfl, rfl⟩ := List.cons.inj hcut
    obtain ⟨hq₁, hqs⟩ := ih hq
    have hpre : q <+: s := by
      have hjoin : op.sep.intercalate (cut op (depthAfter depth c) s) = s := intercalate_cut _ s
      rw [hq] at hjoin
      rw [← hjoin]
      exact prefix_intercalate op.sep q qs
    have hfront : ¬ (depth = 0 ∧ op.sep <+: c :: q) := by
      rintro ⟨hdepth, hsep'⟩
      exact hsep ⟨hdepth, hsep'.trans (List.cons_prefix_cons.2 ⟨rfl, hpre⟩)⟩
    exact ⟨by rw [cut_cons hfront, hq₁, List.modifyHead_cons], hqs⟩

theorem cut_of_mem_operands {s o : List Char} (h : o ∈ op.operands s) : cut op 0 o = [o] := by
  obtain ⟨p, ps, hps⟩ := List.exists_cons_of_ne_nil (operands_ne_nil op s)
  rw [operands_eq_cut] at hps
  obtain ⟨hp, hall⟩ := cut_of_cut hps
  rw [operands_eq_cut, hps] at h
  rcases List.mem_cons.1 h with rfl | h
  · exact hp
  · exact hall o h

/-- A text that is not cut has no separator outside its groups. -/
theorem not_balanced_of_cut_eq_singleton {s u v : List Char} (h : cut op 0 s = [s])
    (hs : s = u ++ (op.sep ++ v)) : ¬ Balanced u := by
  intro hu
  rw [hs] at h
  have hlen := (prefix_of_cut (Paren.balanced_iff.1 hu) h).length_le
  have hpos : 0 < op.sep.length := Nat.succ_pos _
  simp only [List.length_append] at hlen
  omega

theorem cut_eq_singleton_iff {s : List Char} (h : hasParen s = false) :
    cut op 0 s = [s] ↔ ¬ op.sep <:+: s := by
  constructor
  · intro hcut ⟨u, v, hs⟩
    refine not_balanced_of_cut_eq_singleton (u := u) (v := v) hcut (by simp [← hs]) ?_
    have hskel := Paren.hasParen_eq_false_iff.1 h
    rw [← hs, Paren.skeleton_append, Paren.skeleton_append, List.append_assoc] at hskel
    exact Paren.balanced_of_skeleton_eq_nil (List.append_eq_nil_iff.1 hskel).1
  · intro hsep
    obtain ⟨p, ps, hps⟩ := List.exists_cons_of_ne_nil (cut_ne_nil op 0 s)
    have hjoin : op.sep.intercalate (cut op 0 s) = s := intercalate_cut 0 s
    rw [hps] at hjoin ⊢
    cases ps with
    | nil => rw [← hjoin, List.intercalate_singleton]
    | cons q ps =>
      rw [List.intercalate_cons_cons] at hjoin
      exact absurd ⟨p, _, hjoin⟩ hsep

/-- An operand of an operand has neither of the two separators if it has no parentheses. -/
theorem not_sep_infix_of_mem_operands {op' : Operator} {s a o : List Char} (hs : Balanced s)
    (ha : a ∈ op.operands s) (ho : o ∈ op'.operands a) (hparen : hasParen o = false) :
    ¬ op.sep <:+: o ∧ ¬ op'.sep <:+: o := by
  constructor
  · intro ⟨x, y, hxy⟩
    have hparts : ∀ p ∈ op'.operands a, Balanced p := fun p hp =>
      balanced_of_mem_operands (balanced_of_mem_operands hs ha) hp
    obtain ⟨u, v, hjoin, hu⟩ :
        ∃ u v, op'.sep.intercalate (op'.operands a) = u ++ (o ++ v) ∧ Balanced u :=
      exists_balanced_of_mem_join hparts ho
    rw [intercalate_operands, ← hxy] at hjoin
    -- the separator would stand outside all groups in the outer operand as well
    have hx : Balanced x := Paren.balanced_of_not_hasParen
      (Paren.hasParen_of_infix hparen ⟨[], op.sep ++ y, by simpa using hxy⟩)
    have hnot := not_balanced_of_cut_eq_singleton (u := u ++ x) (v := y ++ v)
      (cut_of_mem_operands ha) (by rw [hjoin]; simp)
    exact hnot (hu.append hx)
  · exact (cut_eq_singleton_iff hparen).1 (cut_of_mem_operands ho)

/-! ## Spaces at the ends -/

/-- A space at the end of a text goes into the last part, unless it makes a separator whole that
then ends the text. -/
theorem cut_append_space (op : Operator) (depth : Nat) (s : List Char) :
    (∃ ps, cut op depth (s ++ [' ']) = ps ++ [[]]) ∨
      ∃ ps p, cut op depth s = ps ++ [p] ∧ cut op depth (s ++ [' ']) = ps ++ [p ++ [' ']] := by
  fun_induction cut op depth s with
  | case1 depth =>
    have hspace : ¬ (depth = 0 ∧ op.sep <+: [' ']) := fun h =>
      absurd h.2.length_le (by simp [sep])
    exact Or.inr ⟨[], [], rfl, by rw [List.nil_append, cut_cons hspace, cut_nil]; rfl⟩
  | case2 depth c s hsep ih =>
    obtain ⟨rfl, t, ht⟩ := hsep
    rw [← ht, List.drop_left] at ih ⊢
    rw [List.append_assoc, cut_sep_append]
    rcases ih with ⟨ps, hps⟩ | ⟨ps, p, hps, hps'⟩
    · exact Or.inl ⟨[] :: ps, by rw [hps]; rfl⟩
    · exact Or.inr ⟨[] :: ps, p, by rw [hps]; rfl, by rw [hps']; rfl⟩
  | case3 depth c s hsep ih =>
    by_cases hnew : depth = 0 ∧ op.sep <+: c :: s ++ [' ']
    · obtain ⟨rfl, hnew⟩ := hnew
      have hwhole : op.sep = c :: s ++ [' '] :=
        (List.prefix_concat_iff.1 hnew).resolve_right fun h => hsep ⟨rfl, h⟩
      have hcut : cut op 0 (op.sep ++ []) = [] :: cut op 0 [] := cut_sep_append []
      rw [List.append_nil, cut_nil] at hcut
      exact Or.inl ⟨[[]], by rw [← hwhole, hcut]; rfl⟩
    · have hcut : cut op depth (c :: s ++ [' '])
          = (cut op (depthAfter depth c) (s ++ [' '])).modifyHead (c :: ·) := cut_cons hnew
      rw [hcut]
      rcases ih with ⟨ps, hps⟩ | ⟨ps, p, hps, hps'⟩
      · cases ps with
        | nil =>
          have hjoin : op.sep.intercalate (cut op (depthAfter depth c) (s ++ [' '])) = s ++ [' '] :=
            intercalate_cut _ _
          rw [hps] at hjoin
          exact absurd hjoin (by simp)
        | cons q ps => exact Or.inl ⟨(c :: q) :: ps, by rw [hps]; rfl⟩
      · cases ps with
        | nil => exact Or.inr ⟨[], c :: p, by rw [hps]; rfl, by rw [hps']; rfl⟩
        | cons q ps =>
          exact Or.inr ⟨(c :: q) :: ps, p, by rw [hps]; rfl, by rw [hps']; rfl⟩

theorem operands_append_space {s : List Char} (h : [] ∉ op.operands (s ++ [' '])) :
    ∃ ps p, op.operands s = ps ++ [p] ∧ op.operands (s ++ [' ']) = ps ++ [p ++ [' ']] := by
  rw [operands_eq_cut] at h ⊢
  rw [operands_eq_cut]
  rcases cut_append_space op 0 s with ⟨ps, hps⟩ | hlast
  · exact absurd (by simp [hps]) h
  · exact hlast

theorem operands_cons_space {s : List Char} (h : [] ∉ op.operands (' ' :: s)) :
    ∃ p ps, op.operands s = p :: ps ∧ op.operands (' ' :: s) = (' ' :: p) :: ps := by
  rw [operands_eq_cut] at h ⊢
  rw [operands_eq_cut]
  by_cases hsep : op.sep <+: ' ' :: s
  · obtain ⟨t, ht⟩ := hsep
    rw [← ht, cut_sep_append] at h
    exact absurd (by simp) h
  · have hcut : cut op 0 (' ' :: s) = (cut op 0 s).modifyHead (' ' :: ·) :=
      cut_cons fun h => hsep h.2
    obtain ⟨p, ps, hps⟩ := List.exists_cons_of_ne_nil (cut_ne_nil op 0 s)
    exact ⟨p, ps, hps, by rw [hcut, hps]; rfl⟩

end BooleanQuery.Operator
