import BooleanQuery.Proofs.Paren.Groups
import BooleanQuery.Proofs.Query.Reading

/-!
# Spacing makes no difference

Two texts with the same collapsed text differ only in which white space stands in each of its runs.
A level is stripped before it is collapsed, with a trim of its own, but stripping sees the same pair
either way (`Query.strip_commutes_with_collapse`). So both texts have the same body
(`Query.body_congr`), and as the result of a reading depends on the body alone they compile alike.
Only the place of a parenthesis without a partner is told in bytes of the text as it was given, and
there longer runs move it.
-/

set_option autoImplicit false

namespace BooleanQuery

open Text (trim collapse)
open Paren (Balanced)

theorem Query.body_collapse (s : List Char) : body (collapse s) = body s := by
  rw [body, Paren.strip_collapse, Text.collapse_collapse, body]

theorem Query.body_congr {s t : List Char} (h : collapse s = collapse t) : body s = body t := by
  rw [← body_collapse s, h, body_collapse]

/-- Stripping and collapsing may be done in either order, whatever the text. So a text that is
collapsed already, as the operands of a level are, is read like the text that it was. -/
theorem Query.strip_commutes_with_collapse (s : List Char) :
    collapse (Paren.strip s) = Paren.strip (collapse s) ∧
    ∀ limit levels depth : Nat, (parseWithin limit levels depth (collapse s)).result
      = (parseWithin limit levels depth s).result :=
  ⟨(Paren.strip_collapse s).symm, fun limit levels depth =>
    result_parseWithin_congr limit levels depth depth (body_collapse s)⟩

/-- Texts that collapse to the same one are unbalanced together, and otherwise have the same
result, the rejections with all that they name included. -/
theorem compileWithin_congr_of_collapse {e₁ e₂ : String}
    (h : collapse e₁.toList = collapse e₂.toList) (limit : Nat) :
    ((∃ p, compileWithin limit e₁ = .error (.unbalanced p)) ↔
      ∃ p, compileWithin limit e₂ = .error (.unbalanced p)) ∧
    ((∀ p, compileWithin limit e₁ ≠ .error (.unbalanced p)) →
      compileWithin limit e₁ = compileWithin limit e₂) := by
  have hbalanced : Balanced e₁.toList ↔ Balanced e₂.toList := by
    rw [← Paren.balanced_collapse, h, Paren.balanced_collapse]
  by_cases hb : Balanced e₁.toList
  · have hsame : compileWithin limit e₁ = compileWithin limit e₂ := by
      rw [compileWithin_of_balanced limit hb, compileWithin_of_balanced limit (hbalanced.1 hb)]
      unfold Query.parse
      rw [Query.result_parseWithin_congr limit (limit + 1) 0 0 (Query.body_congr h)]
    exact ⟨by rw [hsame], fun _ => hsame⟩
  · have h₁ := compileWithin_of_not_balanced limit hb
    have h₂ := compileWithin_of_not_balanced limit fun hb₂ => hb (hbalanced.2 hb₂)
    refine ⟨iff_of_true h₁ h₂, ?_⟩
    intro hnot
    obtain ⟨p, hp⟩ := h₁
    exact absurd hp (hnot p)

/-- Tabs, line ends and wide spaces beside an enclosing pair, an operator and a mixed operand. -/
theorem compileWithin_congr_of_collapse_mixed :
    collapse "\t( a\u3000AND\nb( c ) )\u00a0".toList = collapse " ( a AND b( c ) ) ".toList ∧
    ((∃ p, compileWithin 0 "\t( a\u3000AND\nb( c ) )\u00a0" = .error (.unbalanced p)) ↔
      ∃ p, compileWithin 0 " ( a AND b( c ) ) " = .error (.unbalanced p)) ∧
    (∀ p, compileWithin 0 "\t( a\u3000AND\nb( c ) )\u00a0" ≠ .error (.unbalanced p)) ∧
    compileWithin 0 "\t( a\u3000AND\nb( c ) )\u00a0" = compileWithin 0 " ( a AND b( c ) ) " := by
  have h : collapse "\t( a\u3000AND\nb( c ) )\u00a0".toList
      = collapse " ( a AND b( c ) ) ".toList := by decide +kernel
  have hmixed : compileWithin 0 "\t( a\u3000AND\nb( c ) )\u00a0" = .error (.mixed "b( c )") := by
    decide +kernel
  have hnot : ∀ p, compileWithin 0 "\t( a\u3000AND\nb( c ) )\u00a0" ≠ .error (.unbalanced p) := by
    intro p
    rw [hmixed]
    simp
  obtain ⟨hiff, hsame⟩ := compileWithin_congr_of_collapse h 0
  exact ⟨h, hiff, hnot, hsame hnot⟩

end BooleanQuery
