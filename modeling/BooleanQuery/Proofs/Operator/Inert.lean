import Mathlib.Data.List.Forall2
import BooleanQuery.Proofs.Operator.Operands

/-!
# The operands of texts that were joined

What a cut does to a text depends on more than the text: an operator at its end may become whole
only by what follows, and one at its front by a space before it. *Inert* texts are those to which
neither can happen. A word other than the keyword is inert, a group is, and so are inert texts with
a space between them, which makes the terms of a query inert for both operators (`Clean.inert`).

Inert texts that were joined by an operator are what the cut finds again, even if there is a space
at either end (`operands_join`).
-/

set_option autoImplicit false

namespace BooleanQuery

open Text (OptSpace collapse trim)
open Paren (isParen openAfter? Balanced hasParen)

/-! ## Clean texts -/

/-- A text that can only be read as one term: no keyword is among its words. -/
structure Clean (s : List Char) : Prop where
  ne_nil : s ≠ []
  collapse_eq : collapse s = s
  trim_eq : trim s = s
  hasParen_eq : hasParen s = false
  keyword_not_mem : ∀ op : Operator, op.keyword.toList ∉ s.splitOn ' '

instance (s : List Char) : Decidable (Clean s) :=
  decidable_of_iff
    (s ≠ [] ∧ collapse s = s ∧ trim s = s ∧ hasParen s = false ∧
      Operator.and.keyword.toList ∉ s.splitOn ' ' ∧ Operator.or.keyword.toList ∉ s.splitOn ' ')
    ⟨fun ⟨h₁, h₂, h₃, h₄, h₅, h₆⟩ => ⟨h₁, h₂, h₃, h₄, fun op => by cases op <;> assumption⟩,
      fun ⟨h₁, h₂, h₃, h₄, h₅⟩ => ⟨h₁, h₂, h₃, h₄, h₅ .and, h₅ .or⟩⟩

theorem Clean.solid {s : List Char} (h : Clean s) : Text.Solid s :=
  Text.solid_iff.2 ⟨h.ne_nil, h.trim_eq⟩

theorem Clean.skeleton_eq {s : List Char} (h : Clean s) : Paren.skeleton s = [] :=
  Paren.hasParen_eq_false_iff.1 h.hasParen_eq

theorem Clean.balanced {s : List Char} (h : Clean s) : Balanced s :=
  Paren.balanced_of_skeleton_eq_nil h.skeleton_eq

theorem not_mem_of_mem_splitOn {s w : List Char} (h : w ∈ s.splitOn ' ') : ' ' ∉ w := by
  induction s generalizing w with
  | nil =>
    obtain rfl : w = [] := by simpa using h
    simp
  | cons c s ih =>
    rw [List.splitOn_cons_eq_if_modifyHead] at h
    obtain ⟨v, vs, hv⟩ := List.exists_cons_of_ne_nil (List.splitOn_ne_nil ' ' s)
    split at h
    · rcases List.mem_cons.1 h with rfl | h
      · simp
      · exact ih h
    · next hc =>
      rw [hv, List.modifyHead_cons] at h
      rw [hv] at ih
      rcases List.mem_cons.1 h with rfl | h
      · have hv' := ih (w := v) (by simp)
        intro hm
        rcases List.mem_cons.1 hm with rfl | hm
        · exact hc (by simp)
        · exact hv' hm
      · exact ih (List.mem_cons_of_mem v h)

theorem Clean.isWord {s w : List Char} (h : Clean s) (hw : w ∈ s.splitOn ' ') : IsWord w := by
  intro c hc
  have hspace := not_mem_of_mem_splitOn hw
  refine ⟨fun he => hspace (he ▸ hc), ?_⟩
  have hinf : w <:+: s := by
    have := Operator.infix_intercalate [' '] hw
    rwa [List.intercalate_splitOn] at this
  exact Paren.isParen_of_mem h.hasParen_eq (hinf.subset hc)

namespace Operator

variable {op : Operator}

/-! ## Inert texts -/

/-- The text goes into the current operand as a whole, with or without a space in front, if nothing
or a space follows it. -/
def Inert (op : Operator) (s : List Char) : Prop :=
  ∀ l t, OptSpace l → (t = [] ∨ ∃ u, t = ' ' :: u) →
    cut op 0 (l ++ s ++ t) = (cut op 0 t).modifyHead (l ++ s ++ ·)

theorem Inert.append {s t : List Char} (hs : Inert op s) (ht : Inert op t) :
    Inert op (s ++ ' ' :: t) := by
  intro l u hl hu
  have h₁ := hs l (' ' :: (t ++ u)) hl (Or.inr ⟨_, rfl⟩)
  have h₂ := ht [' '] u (Or.inr rfl) hu
  rw [show l ++ (s ++ ' ' :: t) ++ u = l ++ s ++ (' ' :: (t ++ u)) by simp, h₁,
    show ' ' :: (t ++ u) = [' '] ++ t ++ u by simp, h₂, List.modifyHead_modifyHead]
  congr 1
  funext v
  simp

theorem IsWord.not_mem {w : List Char} (h : IsWord w) : ' ' ∉ w :=
  fun hm => (h ' ' hm).1 rfl

theorem inert_word {w : List Char} (hw : IsWord w) (hne : w ≠ op.keyword.toList) :
    Inert op w := by
  intro l t hl ht
  rcases hl with rfl | rfl
  · exact cut_word_append hw 0 t
  -- the space could begin a separator, but only if the word were the keyword
  · rw [List.append_assoc, List.singleton_append, cut_space, cut_word_append hw,
      List.modifyHead_modifyHead]
    · rfl
    · intro _ u hu
      have hkey := IsWord.not_mem (isWord_keyword op)
      rcases ht with rfl | ⟨v, rfl⟩
      · rw [List.append_nil] at hu
        exact IsWord.not_mem hw (hu ▸ by simp)
      · exact hne (Text.append_cons_inj (IsWord.not_mem hw) hkey hu).1

/-- No text is cut where a group is open that it does not close. -/
theorem cut_append_of_openAfter? {d e : Nat} {s : List Char} (h : openAfter? d s = some e)
    (t : List Char) :
    cut op (d + 1) (s ++ t) = (cut op (e + 1) t).modifyHead (s ++ ·) := by
  induction s generalizing d with
  | nil =>
    obtain rfl : d = e := by simpa using h
    exact (modifyHead_nil_append (cut op (d + 1) t)).symm
  | cons c s ih =>
    -- the walk is inside the group all the way, and a separator is looked for only outside
    have hstep : ∀ d', depthAfter (d + 1) c = d' + 1 → openAfter? d' s = some e →
        cut op (d + 1) (c :: s ++ t) = (cut op (e + 1) t).modifyHead (c :: s ++ ·) := by
      intro d' hd ho
      rw [List.cons_append, cut_cons (by simp), hd, ih ho, List.modifyHead_modifyHead]
      rfl
    rcases Paren.paren_cases c with rfl | rfl | hc
    · exact hstep (d + 1) rfl h
    · cases d with
      | zero => exact absurd h (by simp)
      | succ d => exact hstep d rfl h
    · rw [Paren.openAfter?_cons_of_not_isParen hc] at h
      exact hstep d (depthAfter_of_not_isParen hc (d + 1)) h

theorem inert_group {s : List Char} (h : Balanced s) : Inert op ('(' :: s ++ [')']) := by
  have hgroup : ∀ t, cut op 0 ('(' :: s ++ [')'] ++ t)
      = (cut op 0 t).modifyHead ('(' :: s ++ [')'] ++ ·) := by
    intro t
    rw [List.append_assoc, List.cons_append, cut_cons_of_ne (by decide),
      show depthAfter 0 '(' = 0 + 1 from rfl, cut_append_of_openAfter? (h.openAfter? 0),
      List.singleton_append, cut_cons_of_ne (by decide), List.modifyHead_modifyHead,
      List.modifyHead_modifyHead]
    congr 1
    funext v
    simp
  intro l t hl _
  rcases hl with rfl | rfl
  · exact hgroup t
  · rw [List.append_assoc, List.singleton_append, cut_space, hgroup, List.modifyHead_modifyHead]
    · rfl
    · intro _ u hu
      cases op <;> simp [keyword] at hu

theorem inert_intercalate {ss : List (List Char)} (hne : ss ≠ []) (h : ∀ s ∈ ss, Inert op s) :
    Inert op ([' '].intercalate ss) := by
  induction ss with
  | nil => exact absurd rfl hne
  | cons s ss ih =>
    cases ss with
    | nil => simpa using h s (by simp)
    | cons t ss =>
      rw [List.intercalate_cons_cons, List.append_assoc, List.singleton_append]
      exact (h s (by simp)).append (ih (by simp) fun u hu => h u (by simp [hu]))

end Operator

theorem Clean.inert {s : List Char} (h : Clean s) (op : Operator) : op.Inert s := by
  have hwords : [' '].intercalate (s.splitOn ' ') = s := List.intercalate_splitOn ' '
  rw [← hwords]
  apply Operator.inert_intercalate (List.splitOn_ne_nil ' ' s)
  intro w hw
  exact Operator.inert_word (h.isWord hw) fun he => h.keyword_not_mem op (he ▸ hw)

namespace Operator

variable {op : Operator}

/-! ## Joining -/

theorem operands_of_inert {l s r : List Char} (hl : OptSpace l) (hs : Inert op s)
    (hr : OptSpace r) : op.operands (l ++ s ++ r) = [l ++ s ++ r] := by
  have hcut : cut op 0 r = [r] := by
    rcases hr with rfl | rfl
    · exact cut_nil 0
    · rw [cut_space fun _ u hu => by cases op <;> simp [keyword] at hu, cut_nil]
      rfl
  have hends : r = [] ∨ ∃ u, r = ' ' :: u := by
    rcases hr with rfl | rfl
    · exact Or.inl rfl
    · exact Or.inr ⟨[], rfl⟩
  rw [operands_eq_cut, hs l r hl hends, hcut]
  rfl

/-- The second text is the first with at most one space at either end. -/
def Padded (s t : List Char) : Prop := ∃ l r, t = l ++ s ++ r ∧ OptSpace l ∧ OptSpace r

theorem Padded.trim_eq {s t : List Char} (h : Padded s t) : trim t = trim s := by
  obtain ⟨l, r, rfl, hl, hr⟩ := h
  exact Text.trim_append_blank hl.isBlankText hr.isBlankText s

theorem Padded.balanced {s t : List Char} (h : Padded s t) (ht : Balanced t) : Balanced s := by
  obtain ⟨l, r, rfl, hl, hr⟩ := h
  refine (Paren.balanced_congr ?_).1 ht
  rw [Paren.skeleton_append, Paren.skeleton_append, Paren.skeleton_of_isBlankText hl.isBlankText,
    Paren.skeleton_of_isBlankText hr.isBlankText, List.nil_append, List.append_nil]

theorem operands_sep {l s : List Char} (hl : OptSpace l) (hs : Inert op s) (t : List Char) :
    op.operands (l ++ s ++ (op.sep ++ t)) = (l ++ s) :: op.operands t := by
  rw [operands_eq_cut, operands_eq_cut, hs l (op.sep ++ t) hl (Or.inr ⟨_, rfl⟩), cut_sep_append]
  simp

theorem operands_join {ss : List (List Char)} {l r : List Char} (hne : ss ≠ [])
    (h : ∀ s ∈ ss, Inert op s) (hl : OptSpace l) (hr : OptSpace r) :
    List.Forall₂ Padded ss (op.operands (l ++ op.sep.intercalate ss ++ r)) := by
  induction ss generalizing l with
  | nil => exact absurd rfl hne
  | cons s ss ih =>
    have hs := h s (by simp)
    cases ss with
    | nil =>
      rw [List.intercalate_singleton, operands_of_inert hl hs hr]
      exact .cons ⟨l, r, rfl, hl, hr⟩ .nil
    | cons t ss =>
      have hrest := ih (l := []) (by simp) (fun u hu => h u (by simp [hu])) (Or.inl rfl)
      rw [List.intercalate_cons_cons,
        show l ++ (s ++ op.sep ++ op.sep.intercalate (t :: ss)) ++ r
          = l ++ s ++ (op.sep ++ ([] ++ op.sep.intercalate (t :: ss) ++ r)) by simp,
        operands_sep hl hs]
      exact .cons ⟨l, [], by simp, hl, Or.inl rfl⟩ hrest

/-- Texts that one operator joins are inert for the other as a whole. -/
theorem inert_join {op' : Operator} (hop : op' ≠ op) {ss : List (List Char)} (hne : ss ≠ [])
    (h : ∀ s ∈ ss, Inert op s) : Inert op (op'.sep.intercalate ss) := by
  induction ss with
  | nil => exact absurd rfl hne
  | cons s ss ih =>
    cases ss with
    | nil => simpa using h s (by simp)
    | cons t ss =>
      have hkey : Inert op op'.keyword.toList := by
        refine inert_word (isWord_keyword op') fun hk => hop ?_
        cases op <;> cases op' <;> first | rfl | exact absurd hk (by decide)
      have hrest := ih (by simp) fun u hu => h u (by simp [hu])
      have hall := ((h s (by simp)).append hkey).append hrest
      rwa [List.intercalate_cons_cons,
        show s ++ op'.sep ++ op'.sep.intercalate (t :: ss)
          = s ++ ' ' :: op'.keyword.toList ++ ' ' :: op'.sep.intercalate (t :: ss) by simp [sep]]

end Operator

end BooleanQuery
