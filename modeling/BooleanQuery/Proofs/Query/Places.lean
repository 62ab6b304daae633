import BooleanQuery.Proofs.Operator.Edges
import BooleanQuery.Proofs.Paren.Groups
import BooleanQuery.Proofs.Query.Reading

/-!
# The levels of a text

The levels of a text are the text itself, without the pair that encloses it, and its groups, all
with their spacing collapsed (`IsLevel`). A reading gets to no other places: a group that it
descends into is a group of the level that it is at, and the levels of a group are levels of the
whole text (`IsLevel.of_group`).

So what a reading says of a text, be it a term or a fault, comes from an operand of a level. The
facts below are what is known of every level and of every operand of one.
-/

set_option autoImplicit false

namespace BooleanQuery.Query

open Text (trim collapse SingleSpaced)
open Paren (Balanced IsGroup hasParen strip)

/-- The text of a level of `s`: what `s` is stripped to, or a group of that, collapsed. -/
def IsLevel (n s : List Char) : Prop :=
  n = body s ∨ ∃ c, IsGroup c (strip s) ∧ n = collapse c

namespace IsLevel

variable {n s : List Char}

theorem singleSpaced (h : IsLevel n s) : SingleSpaced n := by
  rcases h with rfl | ⟨c, -, rfl⟩
  · exact singleSpaced_body s
  · exact Text.singleSpaced_collapse c

theorem balanced (h : IsLevel n s) (hs : Balanced s) : Balanced n := by
  rcases h with rfl | ⟨c, hc, rfl⟩
  · exact balanced_body hs
  · exact Paren.balanced_collapse.2 hc.balanced

theorem part (h : IsLevel n s) : n <:+: collapse s := by
  rcases h with rfl | ⟨c, hc, rfl⟩
  · exact body_infix_collapse s
  · exact hc.collapse.content.trans (body_infix_collapse s)

/-- The levels of a group are levels of the text that the group stands in. -/
theorem of_group {c : List Char} (hc : IsGroup c (body s)) (h : IsLevel n ('(' :: c ++ [')'])) :
    IsLevel n s := by
  -- a group of the body is a group of the stripped text that was collapsed with it
  have lift : ∀ {d}, IsGroup d (body s) → n = collapse d → IsLevel n s := by
    intro d hd hn
    obtain ⟨d', hd', rfl⟩ := hd.of_collapse
    exact Or.inr ⟨d', hd', by rw [hn, Text.collapse_collapse]⟩
  rcases h with hn | ⟨d, hd, hn⟩
  · exact lift hc (hn.trans (body_group hc.balanced))
  · rw [Paren.strip_group hc.balanced] at hd
    exact lift (hd.trans hc) hn

end IsLevel

namespace IsOperand

variable {o n : List Char}

theorem flanked (h : IsOperand o n) : Operator.Flanked o n := by
  obtain ⟨a, ha, ho⟩ := h
  exact (Operator.flanked_of_mem_operands ho).trans (Operator.flanked_of_mem_operands ha)

/-- An operand without parentheses has been cut at every operator. -/
theorem not_sep_infix (h : IsOperand o n) (hn : Balanced n) (hparen : hasParen o = false)
    (op : Operator) : ¬ op.sep <:+: o := by
  obtain ⟨a, ha, ho⟩ := h
  obtain ⟨hor, hand⟩ := Operator.not_sep_infix_of_mem_operands hn ha ho hparen
  cases op with
  | and => exact hand
  | or => exact hor

theorem isGroup {c : List Char} (h : IsOperand o n) (htrim : trim o = '(' :: c ++ [')'])
    (hc : Balanced c) : IsGroup c n :=
  ⟨hc, htrim ▸ (Text.trim_infix o).trans h.part⟩

end IsOperand

end BooleanQuery.Query
