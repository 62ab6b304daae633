import BooleanQuery.Proofs.Operator.Cut
import BooleanQuery.Proofs.Paren.Nesting

/-!
# The operands of a text

The operands of a text are pieces of it (`infix_of_mem_operands`) that give it back when they are
joined (`intercalate_operands`). Those of a balanced text are balanced, and nested as deep as the
text is (`nesting_le_iff_operands`).
-/

set_option autoImplicit false

namespace BooleanQuery.Operator

open Text (collapse Solid)
open Paren (isParen openAfter? Balanced hasParen skeleton nesting)

variable {op : Operator}

theorem operands_ne_nil (op : Operator) (s : List Char) : op.operands s ≠ [] := by
  rw [operands_eq_cut]
  exact cut_ne_nil op 0 s

theorem intercalate_operands (s : List Char) : op.sep.intercalate (op.operands s) = s := by
  rw [operands_eq_cut]
  exact intercalate_cut 0 s

theorem infix_intercalate (sep : List Char) {ps : List (List Char)} {p : List Char}
    (h : p ∈ ps) : p <:+: sep.intercalate ps := by
  induction ps with
  | nil => exact absurd h (by simp)
  | cons q ps ih =>
    cases ps with
    | nil =>
      obtain rfl : p = q := by simpa using h
      exact ⟨[], [], by simp⟩
    | cons r ps =>
      rw [List.intercalate_cons_cons]
      rcases List.mem_cons.1 h with rfl | h
      · exact ⟨[], sep ++ sep.intercalate (r :: ps), by simp⟩
      · exact (ih h).trans (List.suffix_append _ _).isInfix

theorem intercalate_concat (sep : List Char) {ps : List (List Char)} (hne : ps ≠ [])
    (q : List Char) : sep.intercalate (ps ++ [q]) = sep.intercalate ps ++ (sep ++ q) := by
  induction ps with
  | nil => exact absurd rfl hne
  | cons p ps ih =>
    cases ps with
    | nil => simp
    | cons p' ps =>
      rw [List.cons_append, List.cons_append, List.intercalate_cons_cons, ← List.cons_append,
        ih (by simp), List.intercalate_cons_cons]
      simp

/-- What stands at the end of the last part stands at the end of the join. -/
theorem intercalate_concat_append (sep : List Char) (ps : List (List Char)) (q r : List Char) :
    sep.intercalate (ps ++ [q ++ r]) = sep.intercalate (ps ++ [q]) ++ r := by
  by_cases hne : ps = []
  · simp [hne]
  · rw [intercalate_concat sep hne, intercalate_concat sep hne]
    simp

theorem infix_of_mem_operands {s o : List Char} (h : o ∈ op.operands s) : o <:+: s := by
  have := infix_intercalate op.sep h
  rwa [intercalate_operands] at this

theorem skeleton_sep (op : Operator) : skeleton op.sep = [] := by
  cases op <;> rfl

theorem balanced_sep (op : Operator) : Balanced op.sep :=
  Paren.balanced_of_skeleton_eq_nil (skeleton_sep op)

/-- Where no `)` goes without partner, the walk counts the groups that are open. -/
theorem openAfter?_cons {depth e : Nat} {c : Char} {s : List Char}
    (h : openAfter? depth (c :: s) = some e) (t : List Char) :
    openAfter? depth (c :: t) = openAfter? (depthAfter depth c) t := by
  rcases Paren.paren_cases c with rfl | rfl | hc
  · rfl
  · cases depth with
    | zero => exact absurd h (by simp)
    | succ d => rfl
  · rw [Paren.openAfter?_cons_of_not_isParen hc, depthAfter_of_not_isParen hc]

/-- The groups that are open in front of a text are closed in its first part, and every other part
is balanced. -/
theorem openAfter?_of_cut {depth : Nat} {s p : List Char} {ps : List (List Char)}
    (h : openAfter? depth s = some 0) (hcut : cut op depth s = p :: ps) :
    openAfter? depth p = some 0 ∧ ∀ q ∈ ps, Balanced q := by
  fun_induction cut op depth s generalizing p ps with
  | case1 depth =>
    obtain ⟨rfl, rfl⟩ := List.cons.inj hcut
    exact ⟨h, by simp⟩
  | case2 depth c s hsep ih =>
    -- no group is open at a separator, so the first part ends with the count at 0
    obtain ⟨rfl, hpre⟩ := hsep
    obtain ⟨t, ht⟩ := hpre
    obtain ⟨rfl, rfl⟩ := List.cons.inj hcut
    rw [← ht, List.drop_left] at ih ⊢
    rw [← ht, (balanced_sep op).openAfter?_append] at h
    obtain ⟨q, qs, hq⟩ := List.exists_cons_of_ne_nil (cut_ne_nil op 0 t)
    obtain ⟨hq₁, hqs⟩ := ih h hq
    refine ⟨rfl, ?_⟩
    intro r hr
    rw [hq] at hr
    rcases List.mem_cons.1 hr with rfl | hr
    · exact Paren.balanced_iff.2 hq₁
    · exact hqs r hr
  | case3 depth c s hsep ih =>
    obtain ⟨q, qs, hq⟩ :=
      List.exists_cons_of_ne_nil (cut_ne_nil op (depthAfter depth c) s)
    rw [hq, List.modifyHead_cons] at hcut
    obtain ⟨rfl, rfl⟩ := List.cons.inj hcut
    obtain ⟨hq₁, hqs⟩ := ih ((openAfter?_cons h s).symm.trans h) hq
    exact ⟨(openAfter?_cons h q).trans hq₁, hqs⟩

theorem balanced_of_mem_operands {s o : List Char} (hs : Balanced s) (h : o ∈ op.operands s) :
    Balanced o := by
  rw [operands_eq_cut] at h
  obtain ⟨p, ps, hps⟩ := List.exists_cons_of_ne_nil (cut_ne_nil op 0 s)
  obtain ⟨hp, hall⟩ := openAfter?_of_cut (Paren.balanced_iff.1 hs) hps
  rw [hps] at h
  rcases List.mem_cons.1 h with rfl | h
  · exact Paren.balanced_iff.2 hp
  · exact hall o h

theorem nesting_intercalate_le_iff (op : Operator) {ps : List (List Char)} {n : Nat}
    (h : ∀ p ∈ ps, Balanced p) :
    nesting (op.sep.intercalate ps) ≤ n ↔ ∀ p ∈ ps, nesting p ≤ n := by
  induction ps with
  | nil => simp
  | cons p ps ih =>
    have ih := ih fun q hq => h q (by simp [hq])
    cases ps with
    | nil => simp
    | cons q ps =>
      rw [List.intercalate_cons_cons, List.append_assoc, (h p (by simp)).nesting_append,
        (balanced_sep op).nesting_append, Paren.nesting_eq_zero (skeleton_sep op), Nat.zero_max,
        Nat.max_le, ih]
      simp

theorem nesting_le_iff_operands (op : Operator) {s : List Char} (hs : Balanced s) {n : Nat} :
    nesting s ≤ n ↔ ∀ o ∈ op.operands s, nesting o ≤ n := by
  rw [← nesting_intercalate_le_iff op fun o ho => balanced_of_mem_operands hs ho,
    intercalate_operands]

/-! ## Texts that are joined -/

theorem balanced_intercalate {ps : List (List Char)} (h : ∀ p ∈ ps, Balanced p) :
    Balanced (op.sep.intercalate ps) := by
  induction ps with
  | nil => rfl
  | cons p ps ih =>
    have hrest := ih fun q hq => h q (by simp [hq])
    cases ps with
    | nil => simpa using h p (by simp)
    | cons q ps =>
      rw [List.intercalate_cons_cons]
      exact ((h p (by simp)).append (balanced_sep op)).append hrest

/-- A part of a join has a balanced text in front of it if the parts are balanced. -/
theorem exists_balanced_of_mem_join {ps : List (List Char)} {p : List Char}
    (h : ∀ q ∈ ps, Balanced q) (hp : p ∈ ps) :
    ∃ u v, op.sep.intercalate ps = u ++ (p ++ v) ∧ Balanced u := by
  induction ps with
  | nil => exact absurd hp (by simp)
  | cons q ps ih =>
    cases ps with
    | nil =>
      obtain rfl : p = q := by simpa using hp
      exact ⟨[], [], by simp, rfl⟩
    | cons r ps =>
      rw [List.intercalate_cons_cons]
      rcases List.mem_cons.1 hp with rfl | hp
      · exact ⟨[], op.sep ++ op.sep.intercalate (r :: ps), by simp, rfl⟩
      · obtain ⟨u, v, hjoin, hu⟩ := ih (fun q hq => h q (by simp [hq])) hp
        have hfront : Balanced (q ++ op.sep ++ u) :=
          ((h q (by simp)).append (balanced_sep op)).append hu
        exact ⟨q ++ op.sep ++ u, v, by simp [hjoin], hfront⟩

theorem skeleton_intercalate (op : Operator) (ps : List (List Char)) :
    skeleton (op.sep.intercalate ps) = ps.flatMap skeleton := by
  induction ps with
  | nil => rfl
  | cons p ps ih =>
    cases ps with
    | nil => simp
    | cons q ps =>
      rw [List.intercalate_cons_cons, Paren.skeleton_append, Paren.skeleton_append, ih,
        skeleton_sep, List.append_nil]
      rfl

theorem hasParen_intercalate {ps : List (List Char)} (h : ∀ p ∈ ps, hasParen p = false) :
    hasParen (op.sep.intercalate ps) = false := by
  rw [Paren.hasParen_eq_false_iff, skeleton_intercalate, List.flatMap_eq_nil_iff]
  exact fun p hp => Paren.hasParen_eq_false_iff.1 (h p hp)

theorem solid_intercalate {ps : List (List Char)} (hne : ps ≠ []) (h : ∀ p ∈ ps, Solid p) :
    Solid (op.sep.intercalate ps) := by
  induction ps with
  | nil => exact absurd rfl hne
  | cons p ps ih =>
    cases ps with
    | nil => simpa using h p (by simp)
    | cons q ps =>
      have hrest := ih (by simp) fun r hr => h r (by simp [hr])
      rw [List.intercalate_cons_cons]
      exact Solid.append (h p (by simp)).starts hrest.ends op.sep

theorem collapse_sep (op : Operator) : collapse op.sep = op.sep := by
  cases op <;> rfl

theorem collapse_intercalate {ps : List (List Char)} (h : ∀ p ∈ ps, Solid p) :
    collapse (op.sep.intercalate ps) = op.sep.intercalate (ps.map collapse) := by
  induction ps with
  | nil => rfl
  | cons p ps ih =>
    cases ps with
    | nil => simp
    | cons q ps =>
      have ih := ih fun r hr => h r (by simp [hr])
      have hrest : Solid (op.sep.intercalate (q :: ps)) :=
        solid_intercalate (by simp) fun r hr => h r (by simp [hr])
      rw [List.intercalate_cons_cons, List.append_assoc,
        (h p (by simp)).ends.collapse_append, Text.collapse_append op.sep hrest.starts, ih,
        collapse_sep]
      simp [List.intercalate_cons_cons]

end BooleanQuery.Operator
