import BooleanQuery.Proofs.Operator.Inert

/-!
# Cutting everywhere and joining again

The operands of a text can be found without a look at the parentheses while the text is cut. The
text is cut at every separator, those inside groups included, and the pieces that belong together
are joined again afterwards (`regroup`): from the first piece with a parenthesis on, pieces are held
back until the `(` among them are as many as the `)`.

That finds what the walk of `Operator.operands` finds, if the text is balanced
(`regroup_pieces`). Three facts are behind it. No separator has a parenthesis in it, so that cutting
inside groups moves no cut outside. What is held back begins where no group is open. And from there
on equally many parentheses of either kind mean that none is open again (`count_of_openAfter?`).
-/

set_option autoImplicit false

namespace BooleanQuery.Operator

open Paren (openAfter? Balanced hasParen)

/-- The parts of a text between the separators, wherever these stand. -/
def pieces (op : Operator) : List Char → List (List Char)
  | [] => [[]]
  | c :: s =>
    if op.sep <+: c :: s then [] :: pieces op ((c :: s).drop op.sep.length)
    else (pieces op s).modifyHead (c :: ·)
termination_by s => s.length
decreasing_by
  · have hsep : 0 < op.sep.length := Nat.succ_pos _
    rw [List.length_drop, List.length_cons]
    omega
  · exact Nat.lt_succ_self _

/-- As many `(` as `)`, all the pieces taken together. -/
def Paired (ps : List (List Char)) : Prop := ps.flatten.count '(' = ps.flatten.count ')'

instance (ps : List (List Char)) : Decidable (Paired ps) := inferInstanceAs (Decidable (_ = _))

/-- Joins pieces again where a group was cut, with the separator between them. The first list is
what is held back so far; the answer is what has been completed, and what is still held back at the
end. -/
def regroup (op : Operator) (held : List (List Char)) :
    List (List Char) → List (List Char) × List (List Char)
  | [] => ([], held)
  | p :: ps =>
    if hasParen p = true ∨ held ≠ [] then
      if Paired (held ++ [p]) then
        (regroup op [] ps).map (op.sep.intercalate (held ++ [p]) :: ·) id
      else regroup op (held ++ [p]) ps
    else (regroup op [] ps).map (p :: ·) id

variable {op : Operator}

/-! ## One piece -/

theorem count_flatten (op : Operator) {c : Char} (hc : c ∉ op.sep) (ps : List (List Char)) :
    ps.flatten.count c = (op.sep.intercalate ps).count c := by
  induction ps with
  | nil => rfl
  | cons p ps ih =>
    cases ps with
    | nil => simp
    | cons q ps =>
      rw [List.flatten_cons, List.count_append, ih, List.intercalate_cons_cons,
        List.count_append, List.count_append, List.count_eq_zero_of_not_mem hc, Nat.add_zero]

theorem paired_iff {ps : List (List Char)} {depth : Nat}
    (h : openAfter? 0 (op.sep.intercalate ps) = some depth) : Paired ps ↔ depth = 0 := by
  have hopen : '(' ∉ op.sep := by cases op <;> decide
  have hclose : ')' ∉ op.sep := by cases op <;> decide
  have hcount := Paren.count_of_openAfter? h
  rw [Paired, count_flatten op hopen, count_flatten op hclose]
  omega

/-- Where no group is open behind a piece, what is held back is complete with it. -/
theorem regroup_of_closed {held : List (List Char)} {p : List Char}
    (h : openAfter? 0 (op.sep.intercalate (held ++ [p])) = some 0) (ps : List (List Char)) :
    regroup op held (p :: ps)
      = (regroup op [] ps).map (op.sep.intercalate (held ++ [p]) :: ·) id := by
  rw [regroup, if_pos ((paired_iff h).2 rfl)]
  split
  · rfl
  · next hplain =>
    -- a piece by itself is the join of nothing but that piece
    obtain ⟨-, hheld⟩ := not_or.1 hplain
    rw [not_not.1 hheld, List.nil_append, List.intercalate_singleton]

/-- Where one is open, the piece is held back. -/
theorem regroup_of_open {held : List (List Char)} {p : List Char} {depth : Nat}
    (h : openAfter? 0 (op.sep.intercalate (held ++ [p])) = some (depth + 1))
    (ps : List (List Char)) : regroup op held (p :: ps) = regroup op (held ++ [p]) ps := by
  have hparen : hasParen p = true ∨ held ≠ [] := by
    by_contra hplain
    obtain ⟨hp, hheld⟩ := not_or.1 hplain
    rw [not_not.1 hheld, List.nil_append, List.intercalate_singleton,
      (Paren.balanced_of_not_hasParen (Bool.not_eq_true _ ▸ hp)).openAfter? 0] at h
    exact absurd h (by simp)
  have hunpaired : ¬ Paired (held ++ [p]) := fun hpaired =>
    absurd ((paired_iff h).1 hpaired) (by simp)
  rw [regroup, if_pos hparen, if_neg hunpaired]

/-! ## All pieces -/

/-- In the middle of the walk, some pieces are held back and `cur` is what the walk has of the next
one. The two ways of cutting agree on the rest of the text if they agree on how many groups are
open in front of it. -/
theorem regroup_pieces_from (op : Operator) (held : List (List Char)) (cur : List Char)
    {s : List Char} {depth : Nat}
    (hopen : openAfter? 0 (op.sep.intercalate (held ++ [cur])) = some depth)
    (hclose : openAfter? depth s = some 0) :
    regroup op held ((pieces op s).modifyHead (cur ++ ·))
      = ((cut op depth s).modifyHead (op.sep.intercalate (held ++ [cur]) ++ ·), []) := by
  fun_induction pieces op s generalizing held cur depth with
  | case1 =>
    obtain rfl : depth = 0 := by simpa using hclose
    rw [List.modifyHead_cons, List.append_nil, regroup_of_closed hopen, cut_nil,
      List.modifyHead_cons, List.append_nil]
    rfl
  | case2 c s hsep ih =>
    obtain ⟨t, ht⟩ := hsep
    rw [← ht, List.drop_left] at ih ⊢
    rw [← ht, (balanced_sep op).openAfter?_append] at hclose
    rw [List.modifyHead_cons, List.append_nil]
    cases depth with
    | zero =>
      have hrest := ih [] [] rfl hclose
      rw [List.nil_append, List.intercalate_singleton, modifyHead_nil_append,
        modifyHead_nil_append] at hrest
      rw [regroup_of_closed hopen, hrest, cut_sep_append, List.modifyHead_cons, List.append_nil]
      rfl
    | succ depth =>
      -- inside a group the separator is text for the walk, and a join puts it back
      have hne : held ++ [cur] ≠ [] := by simp
      have hjoin := intercalate_concat op.sep hne []
      rw [List.append_nil] at hjoin
      have hrest := ih (held ++ [cur]) [] (by
        rw [hjoin, Paren.openAfter?_append, hopen]
        exact (balanced_sep op).openAfter? _) hclose
      rw [modifyHead_nil_append, hjoin] at hrest
      rw [regroup_of_open hopen, cut_append_of_openAfter? ((balanced_sep op).openAfter? depth),
        List.modifyHead_modifyHead]
      simpa [Function.comp_def] using hrest
  | case3 c s hsep ih =>
    have hcut : ¬ (depth = 0 ∧ op.sep <+: c :: s) := fun h => hsep h.2
    have hstep : openAfter? depth [c] = some (depthAfter depth c) := openAfter?_cons hclose []
    have hrest := ih held (cur ++ [c]) (by
      rw [intercalate_concat_append, Paren.openAfter?_append, hopen]
      exact hstep) ((openAfter?_cons hclose s).symm.trans hclose)
    rw [intercalate_concat_append] at hrest
    rw [cut_cons hcut, List.modifyHead_modifyHead, List.modifyHead_modifyHead]
    simpa [Function.comp_def] using hrest

/-- Cutting a balanced text everywhere and joining again what was cut in groups gives its operands,
and nothing is held back at the end. -/
theorem regroup_pieces (op : Operator) (s : List Char) (h : Balanced s) :
    regroup op [] (pieces op s) = (op.operands s, []) := by
  have hall := regroup_pieces_from op [] [] rfl (Paren.balanced_iff.1 h)
  rwa [List.nil_append, List.intercalate_singleton, modifyHead_nil_append, modifyHead_nil_append,
    ← operands_eq_cut] at hall

/-- Both groups are cut, and the piece between the cuts closes one and opens the other. The second
`AND` outside has lost its space to the first. -/
theorem regroup_pieces_two_groups :
    Balanced "(a AND b) x (c AND (d)) AND AND e".toList ∧
    regroup .and [] (pieces .and "(a AND b) x (c AND (d)) AND AND e".toList)
      = (["(a AND b) x (c AND (d))".toList, "AND e".toList], []) := by
  have h : Balanced "(a AND b) x (c AND (d)) AND AND e".toList := by decide +kernel
  have hoperands : Operator.and.operands "(a AND b) x (c AND (d)) AND AND e".toList
      = ["(a AND b) x (c AND (d))".toList, "AND e".toList] := by decide +kernel
  exact ⟨h, hoperands ▸ regroup_pieces .and _ h⟩

end BooleanQuery.Operator
