import BooleanQuery.Proofs.Query.Joined

/-!
# Another pair of parentheses

What a pair of parentheses around a whole expression costs depends on the expression. The outermost
pair is dropped without being counted as a level, so around an expression that has none the pair is
free. Around an expression that is enclosed already it pushes the old pair one level down, and that
level has to be paid for; all else about the outcome is as it was, the faults that are found in the
expression included.
-/

set_option autoImplicit false

namespace BooleanQuery

open Text (trim)
open Paren (Balanced enclosed?)

/-- Around an expression that is not enclosed a pair of parentheses changes nothing, and around one
that is it takes one level more. -/
theorem compileWithin_group {e : String} (h : Balanced e.toList) :
    (enclosed? (trim e.toList) = none →
      ∀ m, compileWithin m ("(" ++ e ++ ")") = compileWithin m e) ∧
    (enclosed? (trim e.toList) ≠ none →
      compileWithin 0 ("(" ++ e ++ ")") = .error (.tooDeep 0) ∧
      ∀ m, compileWithin (m + 1) ("(" ++ e ++ ")")
        = (compileWithin m e).mapError (Rejection.named (m + 1))) := by
  have htext : ("(" ++ e ++ ")").toList = '(' :: e.toList ++ [')'] := by simp
  have hparse : ∀ m, compileWithin m ("(" ++ e ++ ")")
      = (Query.parse m ('(' :: e.toList ++ [')'])).result.map Query.dnf := fun m =>
    htext ▸ compileWithin_of_balanced m (htext ▸ h.group)
  constructor
  · intro henc m
    rw [hparse, compileWithin_of_balanced m h, Query.parse, Query.parse,
      Query.result_parseWithin_group_of_not_enclosed 0 henc h]
  · intro henc
    obtain ⟨c, hc⟩ := Option.ne_none_iff_exists'.1 henc
    obtain ⟨htrim, hbal⟩ := Paren.enclosed?_eq_some_iff.1 hc
    constructor
    · rw [hparse, Query.parse, Query.result_parseWithin_group_of_enclosed 0 htrim hbal h]
      rfl
    · intro m
      rw [hparse, compileWithin_of_balanced m h, Query.parse,
        Query.result_parseWithin_group_of_enclosed 0 htrim hbal h,
        Query.result_parseWithin_of_limit m h, ← Query.parse]
      cases (Query.parse m e.toList).result with
      | error r => rfl
      | ok q => exact congrArg Except.ok (Query.dnf_any_all_singleton q)

/-- A conjunction of two groups is not enclosed. The other expression is, with blanks around it,
and is nested one level too deep for the limit of 1. -/
theorem compileWithin_group_enclosed :
    (Balanced "(a) AND (b OR c)".toList ∧ enclosed? (trim "(a) AND (b OR c)".toList) = none ∧
      compileWithin 0 "((a) AND (b OR c))" = compileWithin 0 "(a) AND (b OR c)") ∧
    (Balanced " (a AND ((b))) ".toList ∧ enclosed? (trim " (a AND ((b))) ".toList) ≠ none ∧
      compileWithin 0 "( (a AND ((b))) )" = .error (.tooDeep 0) ∧
      compileWithin 1 " (a AND ((b))) " = .error (.tooDeep 1) ∧
      compileWithin 2 "( (a AND ((b))) )" = .error (.tooDeep 2) ∧
      compileWithin 3 "( (a AND ((b))) )" = compileWithin 2 " (a AND ((b))) ") := by
  have h₁ : Balanced "(a) AND (b OR c)".toList := by decide +kernel
  have henc₁ : enclosed? (trim "(a) AND (b OR c)".toList) = none := by decide +kernel
  have h₂ : Balanced " (a AND ((b))) ".toList := by decide +kernel
  have henc₂ : enclosed? (trim " (a AND ((b))) ".toList) ≠ none := by decide +kernel
  have hdeep : compileWithin 1 " (a AND ((b))) " = .error (.tooDeep 1) := by decide +kernel
  have hok : ∃ d, compileWithin 2 " (a AND ((b))) " = .ok d :=
    ⟨⟨[⟨[⟨"b"⟩, ⟨"a"⟩]⟩]⟩, by decide +kernel⟩
  obtain ⟨hzero, hsucc⟩ := (compileWithin_group h₂).2 henc₂
  refine ⟨⟨h₁, henc₁, (compileWithin_group h₁).1 henc₁ 0⟩, h₂, henc₂, hzero, hdeep, ?_, ?_⟩
  · have := hsucc 1
    rwa [hdeep] at this
  · obtain ⟨d, hd⟩ := hok
    have := hsucc 2
    rw [hd] at this ⊢
    exact this

end BooleanQuery
