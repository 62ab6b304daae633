import BooleanQuery.Proofs.Query.Places

/-!
# Where a rejection comes from

A reading that is rejected has run out of levels, or there is a level with a fault: the level is
blank, or it has an operand that is blank or that mixes text with parentheses
(`exists_fault_of_parseWithin`). That is the one induction over the levels; what a fault says of the
text is read off the places that it can be in.
-/

set_option autoImplicit false

namespace BooleanQuery.Query

open Text (trim isBlankText)
open Paren (IsGroup hasParen enclosed?)

/-- The rejections that the text of a level gives cause for by itself. -/
inductive Fault (n : List Char) : Rejection → Prop
  | level (h : isBlankText n = true) : Fault n .blank
  | operand {o : List Char} (ho : IsOperand o n) (h : isBlankText o = true) : Fault n .blank
  | mixed {o : List Char} (ho : IsOperand o n) (hparen : hasParen (trim o) = true)
      (henc : enclosed? (trim o) = none) : Fault n (.mixed (String.ofList (trim o)))

/-- A level is rejected for a fault of its own, or because a group in it is. -/
theorem fault_of_parseLevel {descend : List Char → Traced Query} {depth : Nat} {s : List Char}
    {r : Rejection} (h : (parseLevel descend depth s).result = .error r) :
    Fault (body s) r ∨
      ∃ c, IsGroup c (body s) ∧ (descend ('(' :: c ++ [')'])).result = .error r := by
  rcases exists_of_parseLevel_eq_error _ h with ⟨hblank, rfl⟩ | ⟨o, ho, he⟩
  · exact Or.inl (.level hblank)
  · rcases parseOperand_eq_error_cases he with
      ⟨hnil, rfl⟩ | ⟨hparen, henc, rfl⟩ | ⟨c, htrim, hc, hdescend⟩
    · exact Or.inl (.operand ho (Text.trim_eq_nil_iff.1 hnil))
    · exact Or.inl (.mixed ho hparen henc)
    · exact Or.inr ⟨c, ho.isGroup htrim hc, hdescend⟩

theorem exists_fault_of_parseWithin {limit levels depth : Nat} {s : List Char} {r : Rejection}
    (h : (parseWithin limit levels depth s).result = .error r) :
    r = .tooDeep limit ∨ ∃ n, IsLevel n s ∧ Fault n r := by
  induction levels generalizing depth s with
  | zero => exact Or.inl (Except.error.inj h).symm
  | succ levels ih =>
    rcases fault_of_parseLevel h with hfault | ⟨c, hc, hdescend⟩
    · exact Or.inr ⟨body s, Or.inl rfl, hfault⟩
    · rcases ih hdescend with hdeep | ⟨n, hn, hfault⟩
      · exact Or.inl hdeep
      · exact Or.inr ⟨n, .of_group hc hn, hfault⟩

end BooleanQuery.Query
