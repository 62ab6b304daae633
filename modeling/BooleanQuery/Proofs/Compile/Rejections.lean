import BooleanQuery.Proofs.Paren.Unmatched
import BooleanQuery.Proofs.Query.Faults
import BooleanQuery.Proofs.Query.Levels

/-!
# What a rejection says of the text

Each rejection names a fault, and `Rejection.Genuine` says of every one of them what the fault is,
in terms of the text alone. A text that is rejected has the fault that it is rejected for
(`compileWithin_rejection`), however deep the fault is and whatever else is wrong with the text.

Where a text is rejected as blank, an operand is blank that need not be easy to find. But it stands
at an end of its level (`Operator.Flanked.edge`), so the level shows it: it is blank, or it begins
or ends with an operator.

Where a parenthesis has no partner, the rejection names its position in the text that is compiled,
and which parenthesis that is can be told by counting (`unmatched?_position`).
-/

set_option autoImplicit false

namespace BooleanQuery

open Text (trim collapse isBlankText Solid)
open Paren (Balanced hasParen enclosed? strip nesting)
open Query (IsLevel Fault)

/-- The text has the fault that the rejection names. -/
def Rejection.Genuine (limit : Nat) (s : List Char) : Rejection → Prop
  | .lexical _ => False
  | .unbalanced position => Paren.unmatched? s = some position
  | .blank => ∃ n, IsLevel n s ∧
      (isBlankText n = true ∨ ∃ op : Operator, op.sep <+: n ∨ op.sep <:+ n)
  | .mixed fragment =>
      fragment.toList <:+: collapse s ∧ Solid fragment.toList ∧ hasParen fragment.toList = true ∧
        Balanced fragment.toList ∧ enclosed? fragment.toList = none
  | .tooDeep l => l = limit ∧ limit < nesting (strip s)

/-- A fault of a level is a fault of the text that the level belongs to. -/
theorem Query.Fault.genuine {limit : Nat} {n s : List Char} {r : Rejection} (h : Fault n r)
    (hn : IsLevel n s) (hs : Balanced s) : r.Genuine limit s := by
  cases h with
  | level hblank => exact ⟨n, hn, Or.inl hblank⟩
  | operand ho hblank => exact ⟨n, hn, ho.flanked.edge hn.singleSpaced hblank⟩
  | @mixed o ho hparen henc =>
    have hne : trim o ≠ [] := fun hnil => absurd hparen (by rw [hnil]; simp [hasParen])
    have hpart : trim o <:+: collapse s := ((Text.trim_infix o).trans ho.part).trans hn.part
    have hbal : Balanced (trim o) := Paren.balanced_trim.2 (ho.balanced (hn.balanced hs))
    simpa [Rejection.Genuine] using ⟨hpart, Text.solid_trim hne, hparen, hbal, henc⟩

theorem Query.genuine_of_parse {limit : Nat} {s : List Char} {r : Rejection} (hs : Balanced s)
    (h : (Query.parse limit s).result = .error r) : r.Genuine limit s := by
  rcases exists_fault_of_parseWithin h with rfl | ⟨n, hn, hfault⟩
  · exact le_nesting_of_parseWithin hs h
  · exact hfault.genuine hn hs

/-- A text that is rejected has the fault that the rejection names, and a text with an unmatched
parenthesis is rejected for that, whatever its other faults are. -/
theorem compileWithin_rejection (limit : Nat) (e : String) :
    (∀ r, compileWithin limit e = .error r → r.Genuine limit e.toList) ∧
    ∀ position, Paren.unmatched? e.toList = some position →
      compileWithin limit e = .error (.unbalanced position) := by
  refine ⟨?_, fun _ hu => compileWithin_of_unmatched limit hu⟩
  intro r h
  cases hu : Paren.unmatched? e.toList with
  | some position =>
    rw [compileWithin_of_unmatched limit hu] at h
    obtain rfl : Rejection.unbalanced position = r := Except.error.inj h
    exact hu
  | none =>
    rw [compileWithin_of_balanced limit hu] at h
    cases hp : (Query.parse limit e.toList).result with
    | ok q => exact absurd h (by rw [hp]; simp [Except.map])
    | error r' =>
      rw [hp] at h
      obtain rfl : r' = r := Except.error.inj h
      exact Query.genuine_of_parse hu hp

/-- The first fault in reading order decides, one level down here, and an unmatched parenthesis
comes before all others. -/
theorem compileWithin_rejection_first_fault :
    (compileWithin 3 "x AND ( a OR\t) AND y(z)" = .error .blank ∧
      Rejection.Genuine 3 "x AND ( a OR\t) AND y(z)".toList .blank) ∧
    (compileWithin 0 "y(\nz) AND ((a))" = .error (.mixed "y( z)") ∧
      Rejection.Genuine 0 "y(\nz) AND ((a))".toList (.mixed "y( z)")) ∧
    Paren.unmatched? " AND é(z".toList = some 7 ∧
      compileWithin 3 " AND é(z" = .error (.unbalanced 7) := by
  have hblank : compileWithin 3 "x AND ( a OR\t) AND y(z)" = .error .blank := by decide +kernel
  have hmixed : compileWithin 0 "y(\nz) AND ((a))" = .error (.mixed "y( z)") := by
    decide +kernel
  have hunmatched : Paren.unmatched? " AND é(z".toList = some 7 := by decide +kernel
  exact ⟨⟨hblank, (compileWithin_rejection 3 _).1 _ hblank⟩,
    ⟨hmixed, (compileWithin_rejection 0 _).1 _ hmixed⟩,
    hunmatched, (compileWithin_rejection 3 _).2 _ hunmatched⟩

/-! ## The parenthesis without a partner -/

open Text (byteLength)
open Paren (unmatched? WellNested)

/-- Only what is wrong with the parentheses of the whole text is reported as unbalanced, and so the
position is one in that text. -/
theorem compileWithin_eq_unbalanced_iff {limit position : Nat} {e : String} :
    compileWithin limit e = .error (.unbalanced position)
      ↔ unmatched? e.toList = some position := by
  constructor
  · intro h
    cases hu : unmatched? e.toList with
    | some p =>
      rw [compileWithin_of_unmatched limit hu] at h
      obtain rfl : p = position := by simpa using h
      rfl
    | none =>
      have hparse := (compileWithin_eq_error_iff hu).1 h
      exact absurd (hu.symm.trans (Query.genuine_of_parse hu hparse)) (by simp)
  · exact compileWithin_of_unmatched limit

/-- The position is that of a byte of the text, so that the parenthesis can be pointed at. -/
theorem lt_utf8ByteSize_of_unbalanced {limit position : Nat} {e : String}
    (h : compileWithin limit e = .error (.unbalanced position)) : position < e.utf8ByteSize := by
  obtain ⟨u, c, v, he, -, rfl⟩ :=
    Paren.exists_of_unmatched? (compileWithin_eq_unbalanced_iff.1 h)
  rw [← Text.byteLength_toList, he, Text.byteLength_append, byteLength]
  exact Nat.lt_add_of_pos_right (Nat.add_pos_left c.utf8Size_pos (byteLength v))

/-- A text has no unmatched parenthesis exactly when it is well nested. Otherwise the unmatched one
is the first `)` that closes nothing and, where there is no such `)`, the last `(` that stays open;
it is given by its byte offset in the text that is compiled. -/
theorem unmatched?_position (e : String) :
    (unmatched? e.toList = none ↔ WellNested e.toList) ∧
    ((∃ p, p <+: e.toList ∧ p.count '(' < p.count ')') →
      ∃ u v, e.toList = u ++ ')' :: v ∧ WellNested u ∧
        unmatched? e.toList = some (byteLength u)) ∧
    ((∀ p, p <+: e.toList → p.count ')' ≤ p.count '(') → ¬ WellNested e.toList →
      ∃ u v, e.toList = u ++ '(' :: v ∧ WellNested v ∧
        unmatched? e.toList = some (byteLength u)) ∧
    ∀ limit position, compileWithin limit e = .error (.unbalanced position) ↔
      unmatched? e.toList = some position :=
  ⟨Paren.balanced_iff_wellNested, Paren.exists_of_stray_close, Paren.exists_of_unclosed,
    fun _ _ => compileWithin_eq_unbalanced_iff⟩

/-- A `)` that closes nothing comes before a `(` that stays open. Of two that stay open the last one
counts, not the one before a group that is closed. -/
theorem unmatched?_position_beyond_ascii :
    ((∃ p, p <+: "(é)) (".toList ∧ p.count '(' < p.count ')') ∧
      (∃ u v, "(é)) (".toList = u ++ ')' :: v ∧ WellNested u ∧
        unmatched? "(é)) (".toList = some (byteLength u)) ∧
      unmatched? "(é)) (".toList = some 4 ∧
      compileWithin 0 "(é)) (" = .error (.unbalanced 4)) ∧
    ((∀ p, p <+: "é( (x) (ü".toList → p.count ')' ≤ p.count '(') ∧
      ¬ WellNested "é( (x) (ü".toList ∧
      (∃ u v, "é( (x) (ü".toList = u ++ '(' :: v ∧ WellNested v ∧
        unmatched? "é( (x) (ü".toList = some (byteLength u)) ∧
      unmatched? "é( (x) (ü".toList = some 8 ∧
      compileWithin 3 "é( (x) (ü" = .error (.unbalanced 8)) := by
  have hstray : ∃ p, p <+: "(é)) (".toList ∧ p.count '(' < p.count ')' :=
    ⟨['(', 'é', ')', ')'], by decide, by decide⟩
  have hposition₁ : unmatched? "(é)) (".toList = some 4 := by decide +kernel
  have hle : ∀ p, p <+: "é( (x) (ü".toList → p.count ')' ≤ p.count '(' := by
    have hinits : ∀ p ∈ "é( (x) (ü".toList.inits, p.count ')' ≤ p.count '(' := by decide +kernel
    exact fun p hp => hinits p ((List.mem_inits p _).2 hp)
  have hnot : ¬ WellNested "é( (x) (ü".toList := by
    rw [← Paren.balanced_iff_wellNested]
    decide +kernel
  have hposition₂ : unmatched? "é( (x) (ü".toList = some 8 := by decide +kernel
  obtain ⟨-, hfirst, -, hreport₁⟩ := unmatched?_position "(é)) ("
  obtain ⟨-, -, hlast, hreport₂⟩ := unmatched?_position "é( (x) (ü"
  exact ⟨⟨hstray, hfirst hstray, hposition₁, (hreport₁ 0 4).2 hposition₁⟩,
    hle, hnot, hlast hle hnot, hposition₂, (hreport₂ 3 8).2 hposition₂⟩

end BooleanQuery
