import Mathlib.Tactic.MkIffOfInductiveProp
import BooleanQuery.Proofs.Operator.Seams

/-!
# What a join keeps apart

Texts without parentheses that were joined by an operator are found again by the cut if no
separator stands in one of them and none arises behind one of them. Otherwise they are not
(`operands_intercalate_iff`): the cut depends on the text alone, and the text does not say which of
its separators came from the join.

A text can be trimmed before it is cut as well as after (`operands_trim`), provided that no operand
is lost by it: the space at either end is part of an operand, and between its separators a
single-spaced text has no other blanks to trim.
-/

set_option autoImplicit false

namespace BooleanQuery.Operator

open Text (trim isBlankText OptSpace Solid SingleSpaced StartsSolid EndsSolid)
open Paren (hasParen)

variable {op : Operator}

/-- No separator stands in one of the texts, and none arises at the seam behind one of them. -/
@[mk_iff] structure Separates (op : Operator) (ps : List (List Char)) : Prop where
  whole : ∀ p ∈ ps, ¬ op.sep <:+: p
  seams : ∀ p ∈ ps.dropLast, ¬ op.opening <:+ p

/-- Texts without parentheses that an operator joins are found again by the cut exactly when the
operator separates them. -/
theorem operands_intercalate_iff {ps : List (List Char)} (hne : ps ≠ [])
    (hps : ∀ p ∈ ps, hasParen p = false) :
    op.operands (op.sep.intercalate ps) = ps ↔ op.Separates ps := by
  rw [operands_eq_cut]
  induction ps with
  | nil => exact absurd rfl hne
  | cons p ps ih =>
    have hp := hps p (by simp)
    have hbal := Paren.balanced_iff.1 (Paren.balanced_of_not_hasParen hp)
    cases ps with
    | nil =>
      rw [List.intercalate_singleton, cut_eq_singleton_iff hp]
      exact ⟨fun h => ⟨by simpa using h, by simp⟩, fun h => h.whole p (by simp)⟩
    | cons q ps =>
      have ih := ih (by simp) fun r hr => hps r (by simp [hr])
      rw [List.intercalate_cons_cons, List.append_assoc]
      constructor
      · intro hcut
        obtain ⟨hwhole, -⟩ := cut_of_cut hcut
        have hseam := not_opening_suffix_of_cut hp hcut
        rw [cut_append_sep hbal hseam, hwhole] at hcut
        have hrest := ih.1 (List.cons.inj hcut).2
        refine ⟨List.forall_mem_cons.2 ⟨(cut_eq_singleton_iff hp).1 hwhole, hrest.whole⟩, ?_⟩
        rw [List.dropLast_cons_cons]
        exact List.forall_mem_cons.2 ⟨hseam, hrest.seams⟩
      · intro h
        have hseams := h.seams
        rw [List.dropLast_cons_cons] at hseams
        obtain ⟨hseam, hseams⟩ := List.forall_mem_cons.1 hseams
        obtain ⟨hwhole, hwholes⟩ := List.forall_mem_cons.1 h.whole
        rw [cut_append_sep hbal hseam, (cut_eq_singleton_iff hp).2 hwhole,
          ih.2 ⟨hwholes, hseams⟩, List.singleton_append]

/-- Inert texts are separated. -/
theorem operands_intercalate_of_inert {ps : List (List Char)} (hne : ps ≠ [])
    (h : ∀ p ∈ ps, Inert op p) : op.operands (op.sep.intercalate ps) = ps := by
  induction ps with
  | nil => exact absurd rfl hne
  | cons p ps ih =>
    have hp := h p (by simp)
    cases ps with
    | nil =>
      rw [List.intercalate_singleton]
      simpa using operands_of_inert (Or.inl rfl) hp (Or.inl rfl)
    | cons q ps =>
      have := operands_sep (Or.inl rfl) hp (op.sep.intercalate (q :: ps))
      rw [List.intercalate_cons_cons, List.append_assoc, ← List.nil_append p, this,
        ih (by simp) fun r hr => h r (by simp [hr])]

/-! ## The ends of what is joined -/

/-- Beside a separator a single-spaced text has no blank. -/
theorem endsSolid_of_sep {s t : List Char} (h : SingleSpaced (s ++ (op.sep ++ t)))
    (hne : s ≠ []) : EndsSolid s := by
  have hspace : s ++ (op.sep ++ t) = s ++ ' ' :: (op.keyword.toList ++ ' ' :: t) := by simp [sep]
  exact (hspace ▸ h).endsSolid hne

theorem startsSolid_of_sep {s t : List Char} (h : SingleSpaced (s ++ (op.sep ++ t)))
    (hne : t ≠ []) : StartsSolid t := by
  have hspace : s ++ (op.sep ++ t) = (s ++ ' ' :: op.keyword.toList) ++ ' ' :: t := by simp [sep]
  exact (hspace ▸ h).startsSolid hne

/-- The parts of a text that has no blank at either end have none either. -/
theorem solid_of_mem_join {ps : List (List Char)} (hspaced : SingleSpaced (op.sep.intercalate ps))
    (hsolid : Solid (op.sep.intercalate ps)) : ∀ p ∈ ps, Solid p := by
  induction ps with
  | nil => simp
  | cons p ps ih =>
    cases ps with
    | nil => simpa using hsolid
    | cons q ps =>
      rw [List.intercalate_cons_cons, List.append_assoc] at hspaced hsolid
      -- the text would begin or end with a separator if there were nothing on one side of it
      have hp : p ≠ [] := by
        rintro rfl
        exact hsolid.starts.ne_space _ rfl
      have hrest : op.sep.intercalate (q :: ps) ≠ [] := by
        intro hnil
        rw [hnil] at hsolid
        rw [List.append_nil] at hsolid
        have hspace : EndsSolid [' '] := (hsolid.ends.right (by simp [sep])).right (by simp)
        exact absurd hspace.not_isBlankText (by simp [Text.isBlank_space])
      have hends := (hsolid.ends.right (by simp [sep])).right hrest
      exact List.forall_mem_cons.2
        ⟨⟨hsolid.starts.left hp, endsSolid_of_sep hspaced hp⟩,
          ih hspaced.right.right ⟨startsSolid_of_sep hspaced hrest, hends⟩⟩

theorem solid_of_mem_operands {s : List Char} (hspaced : SingleSpaced s) (hsolid : Solid s) :
    ∀ o ∈ op.operands s, Solid o := by
  have hjoin : op.sep.intercalate (op.operands s) = s := intercalate_operands s
  exact solid_of_mem_join (hjoin.symm ▸ hspaced) (hjoin.symm ▸ hsolid)

theorem map_trim_operands {l s r : List Char} (hl : OptSpace l) (hr : OptSpace r)
    (h : [] ∉ (op.operands (l ++ s ++ r)).map trim) :
    (op.operands (l ++ s ++ r)).map trim = (op.operands s).map trim := by
  have hnil : ∀ {t : List Char}, [] ∉ (op.operands t).map trim → [] ∉ op.operands t :=
    fun ht hmem => ht (List.mem_map_of_mem (f := trim) hmem)
  have hback : (op.operands (l ++ s ++ r)).map trim = (op.operands (l ++ s)).map trim := by
    rcases hr with rfl | rfl
    · rw [List.append_nil]
    · obtain ⟨ps, p, hps, hps'⟩ := operands_append_space (hnil h)
      rw [hps, hps', List.map_append, List.map_append, List.map_singleton, List.map_singleton,
        Text.trim_append_space]
  rw [hback] at h ⊢
  rcases hl with rfl | rfl
  · rw [List.nil_append]
  · obtain ⟨p, ps, hps, hps'⟩ := operands_cons_space (s := s) (hnil h)
    rw [List.singleton_append, hps, hps', List.map_cons, List.map_cons,
      Text.trim_cons_space]

/-- A text has the same operands when it is trimmed, up to trimming, unless one of them is blank. -/
theorem operands_trim {s : List Char} (hspaced : SingleSpaced s)
    (hblank : ∀ o ∈ op.operands s, isBlankText o = false) :
    op.operands (trim s) = (op.operands s).map trim := by
  have hnil : [] ∉ (op.operands s).map trim := by
    intro hmem
    obtain ⟨o, ho, htrim⟩ := List.mem_map.1 hmem
    exact absurd (Text.trim_eq_nil_iff.1 htrim) (by simp [hblank o ho])
  obtain ⟨o, os, hos⟩ := List.exists_cons_of_ne_nil (operands_ne_nil op s)
  have ho : o ∈ op.operands s := by simp [hos]
  have hsolid : Solid (trim s) := Text.solid_trim_of_not_isBlankText
    (Text.not_isBlankText_of_infix (hblank o ho) (infix_of_mem_operands ho))
  -- nothing is left to trim of the operands of a text that begins and ends with no blank
  have hsame : (op.operands (trim s)).map trim = op.operands (trim s) := by
    refine (List.map_congr_left fun p hp => ?_).trans (List.map_id _)
    exact (solid_of_mem_operands (hspaced.part (Text.trim_infix s)) hsolid p hp).trim_eq
  obtain ⟨l, r, hs, hl, hr⟩ := hspaced.exists_trim
  rw [hs] at hnil
  rw [← hsame, ← map_trim_operands hl hr hnil, ← hs]

end BooleanQuery.Operator
