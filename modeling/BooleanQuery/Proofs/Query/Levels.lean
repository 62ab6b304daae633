import BooleanQuery.Proofs.Query.NormalForm
import BooleanQuery.Proofs.Query.Reading

/-!
# How many levels a reading needs

Each group that is descended into takes one level from those that are left. So a reading that
ends well has had more levels than its body is nested deep (`nesting_lt_of_parseWithin`), one that
runs out of levels has had no more (`le_nesting_of_parseWithin`), and levels beyond those that a
reading has used change nothing about it (`parseWithin_eq_or_tooDeep`). Two readings that both have
levels enough give the same result, whatever their limits are.
-/

set_option autoImplicit false

namespace BooleanQuery

/-- The rejection with another limit in it, if it is the limit that was exceeded. -/
def Rejection.named (limit : Nat) : Rejection → Rejection
  | .tooDeep _ => .tooDeep limit
  | r => r

namespace Query

open Text (trim collapse isBlankText)
open Paren (Balanced hasParen strip nesting)

variable {limit limit' levels levels' depth depth' : Nat} {s : List Char}

/-- A reading that runs out of levels is of a text that is nested at least as deep. -/
theorem le_nesting_of_parseWithin {l : Nat} (hs : Balanced s)
    (h : (parseWithin limit levels depth s).result = .error (.tooDeep l)) :
    l = limit ∧ levels ≤ nesting (strip s) := by
  induction levels generalizing depth s with
  | zero =>
    obtain rfl : limit = l := by simpa using h
    exact ⟨rfl, Nat.zero_le _⟩
  | succ levels ih =>
    -- an operand that runs out of the levels that are left is a group
    rcases exists_of_parseLevel_eq_error _ h with ⟨-, hblank⟩ | ⟨o, ho, he⟩
    · exact absurd hblank (by simp)
    · rcases parseOperand_eq_error_cases he with
        ⟨-, hblank⟩ | ⟨-, -, hmixed⟩ | ⟨c, htrim, hc, hdeep⟩
      · exact absurd hblank (by simp)
      · exact absurd hmixed (by simp)
      · obtain ⟨hl, hle⟩ := ih hc.group hdeep
        rw [Paren.strip_group hc] at hle
        have hnest := Paren.nesting_of_trim_eq_group htrim hc
        have hall := (nesting_le_iff_of_level (balanced_body hs)).1 (Nat.le_refl _) o ho
        rw [nesting_body] at hall
        exact ⟨hl, by omega⟩

/-- A reading that ends well has had more levels than the text is nested deep. -/
theorem nesting_lt_of_parseWithin {q : Query} (hs : Balanced s)
    (h : (parseWithin limit levels depth s).result = .ok q) : nesting (strip s) < levels := by
  induction levels generalizing depth s q with
  | zero => exact absurd h (by simp)
  | succ levels ih =>
    -- the level is nested as deep as its deepest operand, a term or a group that was read
    rw [← nesting_body, Nat.lt_succ_iff, nesting_le_iff_of_level (balanced_body hs)]
    intro o ho
    obtain ⟨p, hp⟩ := exists_of_parseLevel_eq_ok _ h ho
    rcases parseOperand_eq_ok_cases hp with ⟨-, hplain, -⟩ | ⟨c, htrim, hc, hread⟩
    · rw [← Paren.nesting_trim, Paren.nesting_eq_zero (Paren.hasParen_eq_false_iff.1 hplain)]
      exact Nat.zero_le levels
    · have hlt := ih hc.group hread
      rw [Paren.strip_group hc] at hlt
      rw [Paren.nesting_of_trim_eq_group htrim hc]
      exact hlt

/-- A reading that has not run out of levels does the same, records included, when it is given
more of them and another limit to name. -/
theorem parseWithin_eq_or_tooDeep (limit limit' depth : Nat) (h : levels ≤ levels')
    (s : List Char) :
    (parseWithin limit levels depth s).result = .error (.tooDeep limit) ∨
      parseWithin limit' levels' depth s = parseWithin limit levels depth s := by
  induction levels generalizing levels' depth s with
  | zero => exact Or.inl rfl
  | succ levels ih =>
    cases levels' with
    | zero => exact absurd h (by omega)
    | succ levels' =>
      exact parseLevel_eq_or_error (fun t => ih (depth + 1) (Nat.le_of_succ_le_succ h) t) depth s

/-- What two limits make of the same levels is the same, up to the limit that a rejection names. -/
theorem result_parseWithin_of_limit (limit : Nat) (hs : Balanced s) :
    (parseWithin limit' levels depth s).result
      = (parseWithin limit levels depth s).result.mapError (Rejection.named limit') := by
  rcases parseWithin_eq_or_tooDeep limit limit' depth (Nat.le_refl levels) s with hdeep | heq
  · rcases parseWithin_eq_or_tooDeep limit' limit depth (Nat.le_refl levels) s with hdeep' | heq
    · rw [hdeep, hdeep']
      rfl
    · rw [heq] at hdeep
      obtain rfl := (le_nesting_of_parseWithin hs hdeep).1
      rw [hdeep]
      rfl
  · rw [← heq]
    cases h : (parseWithin limit' levels depth s).result with
    | ok q => rfl
    | error r =>
      cases r with
      | tooDeep l =>
        rw [(le_nesting_of_parseWithin hs h).1]
        rfl
      | _ => rfl

theorem parseWithin_eq_of_nesting_lt (hs : Balanced s) (hn : nesting (strip s) < levels)
    (h : levels ≤ levels') :
    parseWithin limit' levels' depth s = parseWithin limit levels depth s := by
  rcases parseWithin_eq_or_tooDeep limit limit' depth h s with hdeep | heq
  · exact absurd (le_nesting_of_parseWithin hs hdeep).2 (by omega)
  · exact heq

/-- With levels enough the result is a matter of the body alone. -/
theorem result_parseWithin_eq {s' : List Char} (hs : Balanced s) (hbody : body s = body s')
    (hn : nesting (strip s) < levels) (hn' : nesting (strip s) < levels') :
    (parseWithin limit levels depth s).result = (parseWithin limit' levels' depth' s').result := by
  rw [← result_parseWithin_congr limit' levels' depth depth' hbody]
  rcases Nat.le_total levels levels' with h | h
  · rw [parseWithin_eq_of_nesting_lt hs hn h]
  · rw [parseWithin_eq_of_nesting_lt hs hn' h]

end Query

end BooleanQuery
