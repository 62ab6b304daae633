import BooleanQuery.Proofs.Operator.Scan
import BooleanQuery.Proofs.Query.Places
import BooleanQuery.Proofs.Query.Watched

/-!
# Balance on the way down

Balance is decided once, for the whole expression, and then relied upon in every function of the
reader. It holds there because nothing on the way down takes a parenthesis from its partner:
trimming and collapsing take no parentheses at all, stripping takes a pair, and a cut falls outside
of all groups. So each text that is passed on is balanced (`Call.Sound`), as long as the first one
is.

A level passes on groups of the text that it has to read, and no others. The level below drops the
pair of such a group, so that it has two parentheses less to read than the one above, at least. That
is why the reading would end without a limit.
-/

set_option autoImplicit false

namespace BooleanQuery

open Text (trim byteLength)
open Paren (Balanced IsGroup enclosed? strip skeleton)
open Watched (every_pure every_quiet every_call every_mapM)

/-- A level is asked to read a group of the text of its caller, and any other call is passed a
balanced text. -/
def Call.Sound : Call → Prop
  | .level (some n) s => ∃ c, IsGroup c n ∧ s = '(' :: c ++ [')']
  | c => Balanced c.text

theorem Call.Sound.balanced {c : Call} (h : c.Sound) : Balanced c.text := by
  match c, h with
  | .level (some n) s, ⟨c, hc, hs⟩ => exact hs ▸ hc.balanced.group
  | .level none _, h => exact h
  | .strip _, h => exact h
  | .enclosed _, h => exact h
  | .operands _ _, h => exact h
  | .alternative _, h => exact h

/-- A group is a part of the text, and has two parentheses more than what stands in it. -/
theorem Paren.IsGroup.skeleton_length {c n : List Char} (h : IsGroup c n) :
    (skeleton c).length + 2 ≤ (skeleton n).length := by
  have hpart : (skeleton ('(' :: c ++ [')'])).length ≤ (skeleton n).length :=
    (h.part.sublist.filter isParen).length_le
  have hpair : skeleton ('(' :: c ++ [')']) = '(' :: skeleton c ++ [')'] :=
    skeleton_append ('(' :: c) [')']
  rw [hpair, List.length_append, List.length_cons, List.length_singleton] at hpart
  exact hpart

namespace Query

/-! ## One level -/

theorem every_callEnclosed {s : List Char} (hs : Balanced s) :
    (callEnclosed s : Watched _).Every Call.Sound :=
  (every_call hs).bind fun _ _ => every_pure _

theorem every_callStrip {s : List Char} (hs : Balanced s) :
    (callStrip s : Watched _).Every Call.Sound :=
  (every_call hs).bind fun _ _ =>
    (every_callEnclosed (Paren.balanced_trim.2 hs)).bind fun _ _ => every_pure _

theorem every_callOperands (op : Operator) {s : List Char} (hs : Balanced s) :
    (callOperands op s : Watched _).Every Call.Sound :=
  (every_call hs).bind fun _ _ => every_pure _

section Level

variable {descend : List Char → Watched Query}
  (hdescend : ∀ c, Balanced c → (descend ('(' :: c ++ [')'])).Every Call.Sound)
  {n : List Char} (hn : Balanced n)

include hdescend

theorem every_callLevel {c : List Char} (hc : IsGroup c n) :
    (callLevel descend n ('(' :: c ++ [')'])).Every Call.Sound := by
  have hsound : (Call.level (some n) ('(' :: c ++ [')'])).Sound := ⟨c, hc, rfl⟩
  exact (every_call hsound).bind fun _ _ => hdescend c hc.balanced

include hn

theorem every_parseOperand {o : List Char} (ho : IsOperand o n) :
    (parseOperand (callLevel descend n) o).Every Call.Sound := by
  unfold parseOperand
  dsimp only
  split
  · exact every_quiet _
  · split
    · exact every_pure _
    · apply (every_callEnclosed (Paren.balanced_trim.2 (ho.balanced hn))).bind
      intro content hcontent
      obtain rfl : enclosed? (trim o) = content := Except.ok.inj hcontent
      split
      · exact every_quiet _
      · next henc =>
        obtain ⟨c, hc⟩ := Option.ne_none_iff_exists'.1 henc
        obtain ⟨htrim, hbal⟩ := Paren.enclosed?_eq_some_iff.1 hc
        rw [htrim]
        exact every_callLevel hdescend (ho.isGroup htrim hbal)

theorem every_parseAlternative {a : List Char} (ha : a ∈ Operator.or.operands n) :
    (parseAlternative (callLevel descend n) a).Every Call.Sound := by
  have hbal : Balanced a := Operator.balanced_of_mem_operands hn ha
  refine (every_call hbal).bind fun _ _ => (every_callOperands .and hbal).bind fun os hos => ?_
  obtain rfl : Operator.and.operands a = os := Except.ok.inj hos
  refine (every_mapM fun o ho => ?_).bind fun _ _ => every_pure _
  exact every_parseOperand hdescend hn ⟨a, ha, ho⟩

omit hn

theorem every_parseLevel (depth : Nat) {s : List Char} (hs : Balanced s) :
    (parseLevel descend depth s).Every Call.Sound := by
  refine (every_quiet _).bind fun _ _ => (every_callStrip hs).bind fun stripped hstrip => ?_
  obtain rfl : strip s = stripped := Except.ok.inj hstrip
  have hbody : Balanced (body s) := balanced_body hs
  dsimp only
  rw [← body]
  split
  · exact every_quiet _
  · refine (every_callOperands .or hbody).bind fun as has => ?_
    obtain rfl : Operator.or.operands (body s) = as := Except.ok.inj has
    refine (every_mapM fun a ha => ?_).bind fun _ _ => every_pure _
    exact every_parseAlternative hdescend hbody ha

end Level

/-! ## All levels -/

theorem every_parseIn (limit levels depth : Nat) {s : List Char} (hs : Balanced s) :
    (parseIn Watched limit levels depth s).Every Call.Sound := by
  induction levels generalizing depth s with
  | zero => exact every_quiet _
  | succ levels ih => exact every_parseLevel (fun c hc => ih (depth + 1) hc.group) depth hs

end Query

theorem every_compileWatched (limit : Nat) {e : String} (h : Balanced e.toList) :
    (compileWatched limit e).Every Call.Sound := by
  have hlevel : (Call.level none e.toList).Sound := h
  unfold compileWatched compileIn
  rw [show Paren.unmatched? e.toList = none from h]
  refine (every_call hlevel).bind fun _ _ => (Query.every_parseIn limit (limit + 1) 0 h).bind ?_
  intro q _
  exact (every_quiet _).bind fun _ _ => every_pure _

/-- Of a balanced expression, watched while it is compiled, every text that is passed on is balanced.
So no cut meets a `)` where no group is open. And a level that is entered from another one is given
a text that is enclosed: one pair is dropped, and at least two parentheses fewer are left to read
than the level above had. -/
theorem compileWatched_calls (limit : Nat) {e : String} (h : Balanced e.toList) :
    (compileWatched limit e).outcome = compileTraced limit e ∧
    (∀ c ∈ (compileWatched limit e).calls, Balanced c.text) ∧
    (∀ op s, .operands op s ∈ (compileWatched limit e).calls →
      op.strictSpans? (byteLength s) 0 0 (lexemes s)
        = some (op.operandSpans (byteLength s) 0 0 (lexemes s))) ∧
    (∀ n s, .level (some n) s ∈ (compileWatched limit e).calls →
      ∃ c, enclosed? s = some c ∧ s = '(' :: c ++ [')'] ∧ strip s = c ∧
        (skeleton (Query.body s)).length + 2 ≤ (skeleton n).length) := by
  have hsound := every_compileWatched limit h
  refine ⟨outcome_compileWatched limit e, fun c hc => (hsound c hc).balanced, ?_, ?_⟩
  · intro op s hs
    exact Operator.strictSpans?_eq_some op (hsound _ hs).balanced
  · intro n s hs
    obtain ⟨c, hc, rfl⟩ := hsound _ hs
    have hbal := hc.balanced
    refine ⟨c, Paren.enclosed?_eq_some_iff.2 ⟨rfl, hbal⟩, rfl, Paren.strip_group hbal, ?_⟩
    rw [Query.body_group hbal, Paren.skeleton_collapse]
    exact hc.skeleton_length

/-- The caller of the second group has read a space for the tab in front of it, and the group that
stands in that group is stripped in its turn. -/
theorem compileWatched_calls_nested :
    Balanced "x AND (y OR\t((a) AND b))".toList ∧
    (compileWatched 3 "x AND (y OR\t((a) AND b))").outcome
      = compileTraced 3 "x AND (y OR\t((a) AND b))" ∧
    (.strip "(a)".toList ∈ (compileWatched 3 "x AND (y OR\t((a) AND b))").calls ∧
      Balanced "(a)".toList) ∧
    (.operands .and "((a) AND b)".toList
        ∈ (compileWatched 3 "x AND (y OR\t((a) AND b))").calls ∧
      Operator.and.strictSpans? (byteLength "((a) AND b)".toList) 0 0
          (lexemes "((a) AND b)".toList)
        = some (Operator.and.operandSpans (byteLength "((a) AND b)".toList) 0 0
          (lexemes "((a) AND b)".toList))) ∧
    (.level (some "y OR ((a) AND b)".toList) "((a) AND b)".toList
        ∈ (compileWatched 3 "x AND (y OR\t((a) AND b))").calls ∧
      ∃ c, enclosed? "((a) AND b)".toList = some c ∧ "((a) AND b)".toList = '(' :: c ++ [')'] ∧
        strip "((a) AND b)".toList = c ∧
        (skeleton (Query.body "((a) AND b)".toList)).length + 2
          ≤ (skeleton "y OR ((a) AND b)".toList).length) := by
  have h : Balanced "x AND (y OR\t((a) AND b))".toList := by decide +kernel
  have hstrip : .strip "(a)".toList
      ∈ (compileWatched 3 "x AND (y OR\t((a) AND b))").calls := by decide +kernel
  have hcut : .operands .and "((a) AND b)".toList
      ∈ (compileWatched 3 "x AND (y OR\t((a) AND b))").calls := by decide +kernel
  have hlevel : .level (some "y OR ((a) AND b)".toList) "((a) AND b)".toList
      ∈ (compileWatched 3 "x AND (y OR\t((a) AND b))").calls := by decide +kernel
  obtain ⟨houtcome, hbalanced, hspans, hdown⟩ := compileWatched_calls 3 h
  exact ⟨h, houtcome, ⟨hstrip, hbalanced _ hstrip⟩, ⟨hcut, hspans _ _ hcut⟩,
    hlevel, hdown _ _ hlevel⟩

end BooleanQuery
