import BooleanQuery.Proofs.Operator.Seams
import BooleanQuery.Proofs.Query.Joined

/-!
# Spaces at the ends of a level

A level is cut before its operands are trimmed, and a space at an end of it may be all that makes an
operator of the word beside it. Then an operand is empty and the level is rejected. So a level that
is read has the same alternatives without the space (`ignoresSpaces_alternatives`), and a text in
the middle of a longer one, where such a space belongs to an operator already, has the alternatives
that it has by itself (`exists_alternatives`).
-/

set_option autoImplicit false

namespace BooleanQuery.Query

open Text (trim collapse isBlankText OptSpace)
open Paren (Balanced strip nesting)
open Operator (Padded)

/-- Blank texts are rejected, and a text that is not rejected has the same result without the space
at an end of it. -/
structure IgnoresSpaces {β : Type} (f : List Char → Except Rejection β) : Prop where
  not_blank : ∀ {s y}, f s = .ok y → isBlankText s = false
  front : ∀ {s y}, f (' ' :: s) = .ok y → f s = .ok y
  back : ∀ {s y}, f (s ++ [' ']) = .ok y → f s = .ok y

namespace IgnoresSpaces

variable {β γ : Type} {f : List Char → Except Rejection β}

theorem of_padded (h : IgnoresSpaces f) {s t : List Char} {y : β} (hst : Padded s t)
    (ht : f t = .ok y) : f s = .ok y := by
  obtain ⟨l, r, rfl, hl, hr⟩ := hst
  have hback : f (l ++ s) = .ok y := by
    rcases hr with rfl | rfl
    · rwa [List.append_nil] at ht
    · exact h.back ht
  rcases hl with rfl | rfl
  · exact hback
  · exact h.front hback

theorem map (h : IgnoresSpaces f) (g : β → γ) : IgnoresSpaces fun s => (f s).map g := by
  -- where the mapped result is a value, so is the result
  have hok : ∀ {s z}, (f s).map g = .ok z → ∃ y, f s = .ok y ∧ g y = z := by
    intro s z hz
    cases hs : f s with
    | error e => exact absurd hz (by simp [hs, Except.map])
    | ok y => exact ⟨y, rfl, by simpa [hs, Except.map] using hz⟩
  constructor
  · intro s z hz
    obtain ⟨y, hy, -⟩ := hok hz
    exact h.not_blank hy
  · intro s z hz
    obtain ⟨y, hy, rfl⟩ := hok hz
    rw [h.front hy]
    rfl
  · intro s z hz
    obtain ⟨y, hy, rfl⟩ := hok hz
    rw [h.back hy]
    rfl

/-- A run over the operands of a text ignores spaces if what is done with each of them does. -/
theorem operands (h : IgnoresSpaces f) (op : Operator) :
    IgnoresSpaces fun s => (op.operands s).mapM f := by
  have hmem : ∀ {s ys o}, (op.operands s).mapM f = .ok ys → o ∈ op.operands s →
      isBlankText o = false := by
    intro s ys o hys ho
    obtain ⟨y, -, hy⟩ := Traced.exists_of_forall₂ (Traced.mapM_eq_ok_iff.1 hys) ho
    exact h.not_blank hy
  have hnil : ∀ {s ys}, (op.operands s).mapM f = .ok ys → [] ∉ op.operands s :=
    fun hys ho => absurd (hmem hys ho) (by simp)
  have hsame : ∀ ps : List (List Char),
      List.Forall₂ (fun x y => ∀ z, f y = .ok z → f x = .ok z) ps ps :=
    fun ps => List.forall₂_same.2 fun _ _ _ => id
  constructor
  · intro s ys hys
    obtain ⟨o, os, hos⟩ := List.exists_cons_of_ne_nil (Operator.operands_ne_nil op s)
    have ho : o ∈ op.operands s := by simp [hos]
    exact Text.not_isBlankText_of_infix (hmem hys ho) (Operator.infix_of_mem_operands ho)
  · intro s ys hys
    obtain ⟨p, ps, hps, hps'⟩ := Operator.operands_cons_space (hnil hys)
    rw [hps'] at hys
    rw [hps]
    exact Traced.mapM_eq_ok_of_forall₂ (.cons (fun _ => h.front) (hsame ps)) hys
  · intro s ys hys
    obtain ⟨ps, p, hps, hps'⟩ := Operator.operands_append_space (hnil hys)
    rw [hps'] at hys
    rw [hps]
    exact Traced.mapM_eq_ok_of_forall₂
      (List.rel_append (hsame ps) (.cons (fun _ => h.back) .nil)) hys

end IgnoresSpaces

variable (descend : List Char → Traced Query)

theorem ignoresSpaces_parseOperand :
    IgnoresSpaces fun s => (parseOperand descend s).result := by
  constructor
  · intro s q hq
    rcases parseOperand_eq_ok_cases hq with ⟨hne, -, -⟩ | ⟨c, htrim, -, -⟩
    · exact Bool.eq_false_iff.2 fun hblank => hne (Text.trim_of_isBlankText hblank)
    · refine Bool.eq_false_iff.2 fun hblank => ?_
      rw [Text.trim_of_isBlankText hblank] at htrim
      exact absurd htrim (by simp)
  · intro s q hq
    rwa [← parseOperand_congr descend (Text.trim_cons_space s)]
  · intro s q hq
    rwa [← parseOperand_congr descend (Text.trim_append_space s)]

/-- The alternatives of the text of a level, read one after another. -/
def alternatives (s : List Char) : Except Rejection (List Query) :=
  (Operator.or.operands s).mapM fun a => (parseAlternative descend a).result

theorem ignoresSpaces_alternatives : IgnoresSpaces (alternatives descend) := by
  have halt : IgnoresSpaces fun a => (parseAlternative descend a).result := by
    simp only [result_parseAlternative]
    exact ((ignoresSpaces_parseOperand descend).operands .and).map Query.all
  exact halt.operands .or

variable {descend}

/-- A group by itself, with or without spaces, is the only alternative. -/
theorem alternatives_group {u c : List Char} (htrim : trim u = '(' :: c ++ [')'])
    (hu : Text.SingleSpaced u) (hc : Balanced c) :
    alternatives descend u
      = (descend ('(' :: c ++ [')'])).result.map fun q => [.all [q]] := by
  obtain ⟨l, r, hpadded, hl, hr⟩ := hu.exists_trim
  rw [htrim] at hpadded
  have hpart : c <:+: u := (Text.infix_group c).trans (htrim ▸ Text.trim_infix u)
  have hsealed : Sealed ('(' :: c ++ [')']) := sealed_group hc (hu.part hpart).collapse_eq
  have halt : (parseAlternative descend u).result
      = (descend ('(' :: c ++ [')'])).result.map fun q => .all [q] := by
    have hjoin : u = l ++ Operator.and.sep.intercalate ['(' :: c ++ [')']] ++ r := by
      rw [List.intercalate_singleton, ← hpadded]
    rw [hjoin, result_parseAlternative_join (by simp) (by simpa using hsealed) hl hr,
      List.mapM_cons, List.mapM_nil, parseOperand_group descend hc]
    cases (descend ('(' :: c ++ [')'])).result with
    | error e => rfl
    | ok q => rfl
  rw [alternatives, hpadded, Operator.operands_of_inert hl (hsealed.inert .or) hr, ← hpadded,
    List.mapM_cons, List.mapM_nil, halt]
  cases (descend ('(' :: c ++ [')'])).result with
  | error e => rfl
  | ok q => rfl

theorem not_isBlankText_of_parseWithin {limit levels depth : Nat} {s : List Char} {q : Query}
    (h : (parseWithin limit levels depth s).result = .ok q) : isBlankText s = false := by
  cases levels with
  | zero => exact absurd h (by simp)
  | succ levels =>
    obtain ⟨hbody, -⟩ := (parseLevel_eq_ok_iff _).1 h
    have hcollapse := Text.not_isBlankText_of_infix hbody (body_infix_collapse s)
    rwa [Text.isBlankText_collapse] at hcollapse

/-- A text that compiles has alternatives with the same normal form where it is part of a longer
level: with the pair that encloses it left on, and with or without the spaces at its ends. -/
theorem exists_alternatives {k m : Nat} {s u : List Char} {q : Query} (hs : Balanced s)
    (h : (parse k s).result = .ok q) (hm : nesting s ≤ m) (hu : Padded u (collapse s))
    (depth : Nat) :
    ∃ qs, alternatives (parseWithin m m (depth + 1)) u = .ok qs ∧ dnf (.any qs) = dnf q := by
  have hk : nesting (strip s) < k + 1 := nesting_lt_of_parseWithin hs h
  rcases Paren.strip_cases s with ⟨c, htrim, hc, hstrip⟩ | ⟨-, hstrip⟩
  · have hc' : Balanced (collapse c) := Paren.balanced_collapse.2 hc
    have hspaced : Text.SingleSpaced u := by
      obtain ⟨l, r, hcollapse, -, -⟩ := hu
      exact (hcollapse ▸ Text.singleSpaced_collapse s).left.right
    have hgroup : trim u = '(' :: collapse c ++ [')'] := by
      rw [← hu.trim_eq, Text.trim_collapse, htrim, Text.collapse_group]
    -- the group is read one level down, and its body is that of the whole text
    have hbody : body ('(' :: collapse c ++ [')']) = body s := by
      rw [body_group hc', Text.collapse_collapse, body, hstrip]
    have hnest := Paren.nesting_of_trim_eq_group htrim hc
    rw [hstrip] at hk
    have hread : (parseWithin m m (depth + 1) ('(' :: collapse c ++ [')'])).result = .ok q := by
      rw [← h, parse]
      refine result_parseWithin_eq hc'.group hbody ?_ ?_
      · rw [Paren.strip_group hc', Paren.nesting_collapse]
        omega
      · rwa [Paren.strip_group hc', Paren.nesting_collapse]
    refine ⟨[.all [q]], ?_, dnf_any_all_singleton q⟩
    rw [alternatives_group hgroup hspaced hc', hread]
    rfl
  · have hread : (parseLevel (parseWithin m m (depth + 1)) depth s).result = .ok q := by
      rw [← h, parse]
      exact result_parseWithin_eq hs rfl (hstrip.symm ▸ Nat.lt_succ_of_le hm) hk
    obtain ⟨-, qs, rfl, hqs⟩ := (parseLevel_eq_ok_iff _).1 hread
    rw [body, hstrip] at hqs
    exact ⟨qs, (ignoresSpaces_alternatives _).of_padded hu (Traced.mapM_eq_ok_iff.2 hqs), rfl⟩

end BooleanQuery.Query
