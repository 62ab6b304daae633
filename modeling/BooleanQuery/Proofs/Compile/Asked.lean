import BooleanQuery.Proofs.Compile.Records
import BooleanQuery.Proofs.Query.Watched

/-!
# How many levels are asked for

`Traced.levelsAsked` counts the levels of a run by what can be seen of it: a record is made of every
level that is entered, and the run ends at the first one that may not be entered. A watched run has
a call for each of them, and the two counts are the same (`levelsAsked_eq_countP_calls`).

A level is called before it makes its record, so that one of the counts is ahead in between. They
are compared where the call and what comes of it stand together (`Watched.Tallied`).
-/

set_option autoImplicit false

namespace BooleanQuery

/-! ## Levels of a sequence -/

namespace Traced

variable {α β : Type}

theorem levelsAsked_bind_of_ok {x : Traced α} {a : α} (f : α → Traced β) (h : x.result = .ok a) :
    (x >>= f).levelsAsked = x.levelsAsked + (f a).levelsAsked := by
  have hresult : (x >>= f).result = (f a).result := by
    rw [result_bind, h]
    rfl
  unfold levelsAsked
  rw [log_bind_of_ok f h, hresult, h, List.countP_append]
  exact Nat.add_assoc _ _ _

theorem levelsAsked_bind_of_error {x : Traced α} {e : Rejection} (f : α → Traced β)
    (h : x.result = .error e) : (x >>= f).levelsAsked = x.levelsAsked := by
  have hresult : (x >>= f).result = .error e := by
    rw [result_bind, h]
    rfl
  unfold levelsAsked
  rw [log_bind_of_error f h, hresult, h]
  cases e <;> rfl

end Traced

/-- Whether the call asks for a level. -/
def Call.isLevel : Call → Bool
  | .level .. => true
  | _ => false

namespace Watched

variable {α β : Type}

/-- As many levels are asked for as there are calls of levels. -/
def Tallied (x : Watched α) : Prop := x.outcome.levelsAsked = x.calls.countP Call.isLevel

theorem tallied_pure (a : α) : (pure a : Watched α).Tallied := rfl

theorem tallied_call {c : Call} (h : c.isLevel = false) : (call c).Tallied := by
  show 0 = [c].countP Call.isLevel
  rw [List.countP_singleton, h]
  rfl

theorem tallied_reject {e : Rejection} (h : ∀ l, e ≠ .tooDeep l) :
    (Reading.reject e : Watched α).Tallied := by
  cases e with
  | tooDeep l => exact absurd rfl (h l)
  | _ => rfl

theorem Tallied.bind {x : Watched α} {f : α → Watched β} (hx : x.Tallied)
    (hf : ∀ a, (f a).Tallied) : (x >>= f).Tallied := by
  unfold Tallied at hx ⊢
  rw [outcome_bind]
  cases h : x.outcome.result with
  | error e => rw [Traced.levelsAsked_bind_of_error _ h, calls_bind_of_error f h, hx]
  | ok a =>
    rw [Traced.levelsAsked_bind_of_ok _ h, calls_bind_of_ok f h, List.countP_append, hx]
    exact congrArg _ (hf a)

theorem tallied_mapM {f : α → Watched β} (h : ∀ x, (f x).Tallied) (xs : List α) :
    (xs.mapM f).Tallied := by
  induction xs with
  | nil => exact tallied_pure []
  | cons x xs ih =>
    rw [List.mapM_cons]
    exact (h x).bind fun y => ih.bind fun ys => tallied_pure (y :: ys)

end Watched

open Watched (tallied_pure tallied_call tallied_reject tallied_mapM)

/-! ## One level -/

namespace Query

theorem tallied_callEnclosed (s : List Char) : (callEnclosed s : Watched _).Tallied :=
  (tallied_call rfl).bind fun _ => tallied_pure _

theorem tallied_callStrip (s : List Char) : (callStrip s : Watched _).Tallied :=
  (tallied_call rfl).bind fun _ => (tallied_callEnclosed _).bind fun _ => tallied_pure _

theorem tallied_callOperands (op : Operator) (s : List Char) :
    (callOperands op s : Watched _).Tallied :=
  (tallied_call rfl).bind fun _ => tallied_pure _

variable {descend : List Char → Watched Query}

theorem tallied_parseOperand (h : ∀ s, (descend s).Tallied) (s : List Char) :
    (parseOperand descend s).Tallied := by
  unfold parseOperand
  dsimp only
  split
  · exact tallied_reject (by simp)
  · split
    · exact tallied_pure _
    · apply (tallied_callEnclosed _).bind
      intro content
      split
      · exact tallied_reject (by simp)
      · exact h _

theorem tallied_parseAlternative (h : ∀ s, (descend s).Tallied) (s : List Char) :
    (parseAlternative descend s).Tallied := by
  apply (tallied_call rfl).bind
  intro _
  apply (tallied_callOperands .and s).bind
  intro os
  exact (tallied_mapM (tallied_parseOperand h) os).bind fun _ => tallied_pure _

/-- The call of a level and the record of it make one each. -/
theorem tallied_parseLevel (h : ∀ n s, (callLevel descend n s).Tallied)
    (caller : Option (List Char)) (depth : Nat) (s : List Char) :
    (Reading.note (.level caller s) >>= fun _ => parseLevel descend depth s).Tallied := by
  have hentered : (Reading.note (.level caller s) >>= fun _ =>
      Reading.record (.reading (String.ofList s) depth) : Watched Unit).Tallied := rfl
  unfold parseLevel
  rw [← bind_assoc]
  apply hentered.bind
  intro _
  apply (tallied_callStrip s).bind
  intro stripped
  dsimp only
  split
  · exact tallied_reject (by simp)
  · apply (tallied_callOperands .or _).bind
    intro as
    exact (tallied_mapM (tallied_parseAlternative (h _)) as).bind fun _ => tallied_pure _

/-! ## All levels -/

theorem tallied_parseIn (limit levels depth : Nat) (caller : Option (List Char)) (s : List Char) :
    (Reading.note (.level caller s) >>= fun _ => parseIn Watched limit levels depth s).Tallied := by
  induction levels generalizing depth caller s with
  | zero => rfl
  | succ levels ih =>
    exact tallied_parseLevel (fun n t => ih (depth + 1) (some n) t) caller depth s

end Query

/-- A compilation asks for a level as often as it calls for one. -/
theorem levelsAsked_eq_countP_calls (limit : Nat) (e : String) :
    (compileTraced limit e).levelsAsked = (compileWatched limit e).calls.countP Call.isLevel := by
  have htallied : (compileWatched limit e).Tallied := by
    unfold compileWatched compileIn
    cases Paren.unmatched? e.toList with
    | some p => exact tallied_reject (by simp)
    | none =>
      dsimp only
      rw [← bind_assoc]
      apply (Query.tallied_parseIn limit (limit + 1) 0 none e.toList).bind
      intro q
      -- the record of the normal form is of no level
      exact rfl
  rw [← outcome_compileWatched]
  exact htallied

end BooleanQuery
