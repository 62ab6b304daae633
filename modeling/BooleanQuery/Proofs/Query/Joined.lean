import BooleanQuery.Proofs.Operator.Inert
import BooleanQuery.Proofs.Query.Levels
import BooleanQuery.Proofs.Query.NormalForm

/-!
# Reading what was joined

A *sealed* text is one operand wherever it stands between operators. A level that consists of
sealed texts, joined by `AND` and then by `OR`, is read by reading each of them
(`result_parseLevel_join`), one after another, so that the leftmost one that is rejected decides
how the level is.

The case of a single operand is what a pair of parentheses around an expression comes to. It is one
level more if the expression is enclosed already, and otherwise it is nothing at all; in both cases
the normal form is the same (`map_dnf_parseWithin_group`).
-/

set_option autoImplicit false

namespace BooleanQuery

open Text (trim collapse isBlankText OptSpace SingleSpaced)
open Paren (Balanced hasParen strip nesting)

structure Sealed (o : List Char) : Prop where
  solid : Text.Solid o
  collapse_eq : collapse o = o
  balanced : Balanced o
  inert : ∀ op : Operator, op.Inert o

theorem Clean.sealed {s : List Char} (h : Clean s) : Sealed s :=
  ⟨h.solid, h.collapse_eq, h.balanced, h.inert⟩

theorem sealed_group {c : List Char} (h : Balanced c) (hc : collapse c = c) :
    Sealed ('(' :: c ++ [')']) :=
  ⟨Text.solid_group c, by rw [Text.collapse_group, hc], h.group, fun _ => Operator.inert_group h⟩

namespace Query

/-! ## The text of a level -/

/-- The operands of each alternative joined by `AND`, and the alternatives by `OR`. -/
def levelText (oss : List (List (List Char))) : List Char :=
  Operator.or.sep.intercalate (oss.map Operator.and.sep.intercalate)

/-- No alternative is without operands, and every operand is sealed. -/
def SealedLevel (oss : List (List (List Char))) : Prop :=
  oss ≠ [] ∧ ∀ os ∈ oss, os ≠ [] ∧ ∀ o ∈ os, Sealed o

section LevelText

variable {oss : List (List (List Char))}

theorem levelText_singleton (os : List (List Char)) :
    levelText [os] = Operator.and.sep.intercalate os := by
  unfold levelText
  rw [List.map_singleton, List.intercalate_singleton]

theorem forall_alternative {p : List Char → Prop} (h : SealedLevel oss)
    (hp : ∀ os : List (List Char), os ≠ [] → (∀ o ∈ os, Sealed o) →
      p (Operator.and.sep.intercalate os)) :
    ∀ a ∈ oss.map Operator.and.sep.intercalate, p a := by
  intro a ha
  obtain ⟨os, hos, rfl⟩ := List.mem_map.1 ha
  exact hp os (h.2 os hos).1 (h.2 os hos).2

theorem solid_levelText (h : SealedLevel oss) : Text.Solid (levelText oss) := by
  refine Operator.solid_intercalate (by simpa using h.1) (forall_alternative h ?_)
  intro os hne hos
  exact Operator.solid_intercalate hne fun o ho => (hos o ho).solid

theorem balanced_levelText (h : SealedLevel oss) : Balanced (levelText oss) := by
  refine Operator.balanced_intercalate (forall_alternative h ?_)
  intro os _ hos
  exact Operator.balanced_intercalate fun o ho => (hos o ho).balanced

theorem collapse_levelText (h : SealedLevel oss) : collapse (levelText oss) = levelText oss := by
  have halt : ∀ os ∈ oss, collapse (Operator.and.sep.intercalate os)
      = Operator.and.sep.intercalate os := by
    intro os hos
    rw [Operator.collapse_intercalate fun o ho => ((h.2 os hos).2 o ho).solid]
    rw [List.map_congr_left fun o ho => ((h.2 os hos).2 o ho).collapse_eq, List.map_id']
  have hsolid : ∀ a ∈ oss.map Operator.and.sep.intercalate, Text.Solid a := by
    refine forall_alternative h ?_
    intro os hne hos
    exact Operator.solid_intercalate hne fun o ho => (hos o ho).solid
  unfold levelText
  rw [Operator.collapse_intercalate hsolid, List.map_map]
  exact congrArg _ (List.map_congr_left halt)

theorem nesting_levelText_le_iff (h : SealedLevel oss) {n : Nat} :
    nesting (levelText oss) ≤ n ↔ ∀ os ∈ oss, ∀ o ∈ os, nesting o ≤ n := by
  have hbal : ∀ a ∈ oss.map Operator.and.sep.intercalate, Balanced a := by
    refine forall_alternative h ?_
    intro os _ hos
    exact Operator.balanced_intercalate fun o ho => (hos o ho).balanced
  unfold levelText
  rw [Operator.nesting_intercalate_le_iff .or hbal, List.forall_mem_map]
  apply forall_congr'
  intro os
  apply imp_congr_right
  intro hos
  exact Operator.nesting_intercalate_le_iff .and fun o ho => ((h.2 os hos).2 o ho).balanced

end LevelText

/-! ## Reading it -/

variable {descend : List Char → Traced Query}

theorem parseOperand_clean {t : Term} (h : Clean t.text.toList) :
    parseOperand descend t.text.toList = pure (.term t) := by
  rcases parseOperand_cases descend t.text.toList with
    ⟨hnil, -⟩ | ⟨-, -, h'⟩ | ⟨hparen, -, -⟩ | ⟨c, htrim, -, -⟩
  · exact absurd hnil (by rw [h.trim_eq]; exact h.ne_nil)
  · rw [h', h.trim_eq, plainTerm, String.ofList_toList]
  · exact absurd h.hasParen_eq (by rw [← h.trim_eq, hparen]; simp)
  · exact absurd h.hasParen_eq (by rw [← h.trim_eq, htrim]; simp [hasParen])

theorem result_parseAlternative_join {os : List (List Char)} {l r : List Char} (hne : os ≠ [])
    (h : ∀ o ∈ os, Sealed o) (hl : OptSpace l) (hr : OptSpace r) :
    (parseAlternative descend (l ++ Operator.and.sep.intercalate os ++ r)).result
      = (os.mapM fun o => (parseOperand descend o).result).map .all := by
  rw [result_parseAlternative]
  have hpadded := Operator.operands_join hne (fun o ho => (h o ho).inert .and) hl hr
  rw [Traced.mapM_congr (hpadded.imp ?_)]
  intro o o' ho
  rw [parseOperand_congr descend ho.trim_eq]

theorem result_parseLevel_join {depth : Nat} {s l r : List Char} {oss : List (List (List Char))}
    (h : SealedLevel oss) (hl : OptSpace l) (hr : OptSpace r)
    (hbody : body s = l ++ levelText oss ++ r) :
    (parseLevel descend depth s).result
      = (oss.mapM fun (os : List (List Char)) =>
          (os.mapM fun o => (parseOperand descend o).result).map Query.all).map .any := by
  have hinert : ∀ a ∈ oss.map Operator.and.sep.intercalate, Operator.or.Inert a := by
    refine forall_alternative h ?_
    intro os hne hos
    exact Operator.inert_join (by decide) hne fun o ho => (hos o ho).inert .or
  -- the cut finds the alternatives again, with the space at the ends left on two of them
  have hpadded := Operator.operands_join (by simpa using h.1) hinert hl hr
  rw [List.forall₂_map_left_iff, ← levelText] at hpadded
  have hblank : isBlankText (l ++ levelText oss ++ r) = false := by
    simp [(solid_levelText h).not_isBlankText]
  rw [result_parseLevel, hbody, hblank, if_neg Bool.false_ne_true]
  rw [Traced.mapM_congr (((List.forall₂_and_left _ _).2 ⟨h.2, hpadded⟩).imp ?_)]
  intro os a ⟨hos, l', r', ha, hl', hr'⟩
  rw [ha, result_parseAlternative_join hos.1 hos.2 hl' hr']

/-- The case of one alternative. -/
theorem result_parseLevel_conjunction (descend : List Char → Traced Query) (depth : Nat)
    {s l r : List Char} {os : List (List Char)} (hne : os ≠ []) (h : ∀ o ∈ os, Sealed o)
    (hl : OptSpace l) (hr : OptSpace r)
    (hbody : body s = l ++ Operator.and.sep.intercalate os ++ r) :
    (parseLevel descend depth s).result
      = (os.mapM fun o => (parseOperand descend o).result).map fun qs => .any [.all qs] := by
  rw [← levelText_singleton] at hbody
  rw [result_parseLevel_join ⟨by simp, by simpa using ⟨hne, h⟩⟩ hl hr hbody, List.mapM_cons,
    List.mapM_nil]
  cases os.mapM fun o => (parseOperand descend o).result with
  | error e => rfl
  | ok qs => rfl

/-! ## Redundant parentheses -/

section Group

variable {limit limit' levels levels' depth : Nat} (depth' : Nat) {c : List Char}

/-- Around a text that is enclosed, another pair of parentheses is another level. -/
theorem result_parseWithin_group_of_enclosed {c' : List Char} (htrim : trim c = '(' :: c' ++ [')'])
    (hc' : Balanced c') (hc : Balanced c) :
    (parseWithin limit (levels + 1) depth ('(' :: c ++ [')'])).result
      = (parseWithin limit levels depth' c).result.map fun q => .any [.all [q]] := by
  obtain ⟨l, r, hcollapse, hl, hr⟩ := Text.exists_collapse_trim c
  rw [htrim, Text.collapse_group] at hcollapse
  have hbody : body ('(' :: c ++ [')'])
      = l ++ Operator.and.sep.intercalate ['(' :: collapse c' ++ [')']] ++ r := by
    rw [body_group hc, hcollapse, List.intercalate_singleton]
  have hsealed : Sealed ('(' :: collapse c' ++ [')']) :=
    sealed_group (Paren.balanced_collapse.2 hc') (Text.collapse_collapse c')
  -- what is descended into has the body that the text without the pair has
  have hsame : body ('(' :: collapse c' ++ [')']) = body c := by
    rw [body_group (Paren.balanced_collapse.2 hc'), Text.collapse_collapse, body,
      Paren.strip_of_trim_eq_group htrim hc']
  show (parseLevel (parseWithin limit levels (depth + 1)) depth ('(' :: c ++ [')'])).result = _
  rw [result_parseLevel_conjunction _ _ (by simp) (by simpa using hsealed) hl hr hbody,
    List.mapM_cons, List.mapM_nil, parseOperand_group _ (Paren.balanced_collapse.2 hc'),
    result_parseWithin_congr limit levels (depth + 1) depth' hsame]
  cases (parseWithin limit levels depth' c).result with
  | error e => rfl
  | ok q => rfl

/-- Around a text that is not enclosed, a pair of parentheses is dropped at once. -/
theorem result_parseWithin_group_of_not_enclosed (henc : Paren.enclosed? (trim c) = none)
    (hc : Balanced c) :
    (parseWithin limit levels depth ('(' :: c ++ [')'])).result
      = (parseWithin limit levels depth' c).result := by
  refine result_parseWithin_congr limit levels depth depth' ?_
  rw [body_group hc, body, Paren.strip_of_enclosed?_eq_none henc]

/-- Either way the normal form is the same, if there are levels enough. -/
theorem map_dnf_parseWithin_group (hc : Balanced c) (hlevels : nesting c < levels)
    (hlevels' : nesting (strip c) < levels') :
    (parseWithin limit levels depth ('(' :: c ++ [')'])).result.map dnf
      = (parseWithin limit' levels' depth' c).result.map dnf := by
  rcases Paren.strip_cases c with ⟨c', htrim, hc', hstrip⟩ | ⟨henc, hstrip⟩
  · cases levels with
    | zero => exact absurd hlevels (by simp)
    | succ levels =>
      rw [Paren.nesting_of_trim_eq_group htrim hc', ← hstrip] at hlevels
      rw [result_parseWithin_group_of_enclosed depth' htrim hc' hc,
        result_parseWithin_eq hc rfl (Nat.lt_of_succ_lt_succ hlevels) hlevels']
      cases (parseWithin limit' levels' depth' c).result with
      | error e => rfl
      | ok q => exact congrArg Except.ok (dnf_any_all_singleton q)
  · rw [result_parseWithin_group_of_not_enclosed depth' henc hc,
      result_parseWithin_eq hc rfl (hstrip.symm ▸ hlevels) hlevels']

end Group

end Query

end BooleanQuery
