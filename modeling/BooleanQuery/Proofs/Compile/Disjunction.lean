import BooleanQuery.Proofs.Query.Ends
import BooleanQuery.Proofs.Text.LastWord

/-!
# Joining two expressions by `OR`

Two expressions with an `OR` between them are a disjunction, even without parentheses: `OR` binds
less than anything else, so the join is cut there first, and each half is cut into its alternatives
as it would be by itself (`Operator.operands_append_sep`). There is one exception. A first half that
ends with `OR` takes the space in front of the new operator for its own.

What is different about the halves is at their ends. White space there joins that of the operator,
and a pair that enclosed one of them encloses nothing any more and is read as a group
(`Query.exists_alternatives`).
-/

set_option autoImplicit false

namespace BooleanQuery

open Text (trim collapse isBlankText lastWord OptSpace)
open Paren (Balanced strip nesting)

/-! ## The text of the join -/

namespace Operator

variable {op : Operator} {s t : List Char}

theorem not_isBlank_of_mem_keyword (op : Operator) :
    ∀ c ∈ op.keyword.toList, Text.isBlank c = false := by
  have hall : op.keyword.toList.all (fun c => !Text.isBlank c) = true := by cases op <;> decide
  intro c hc
  simpa using List.all_eq_true.1 hall c hc

/-- The white space on both sides of the operator becomes the two spaces of it. -/
theorem collapse_blank_sep_blank {l r : List Char} (hl : isBlankText l = true)
    (hr : isBlankText r = true) : collapse (l ++ op.sep ++ r) = op.sep := by
  have hsolid := Text.solid_of_forall op.keyword_ne_nil op.not_isBlank_of_mem_keyword
  have hkeyword : collapse op.keyword.toList = op.keyword.toList := by cases op <;> rfl
  have hfront : collapse (l ++ [' ']) = [' '] :=
    Text.collapse_blank (by simp [hl, Text.isBlank_space]) (by simp)
  have hback : collapse (' ' :: r) = [' '] :=
    Text.collapse_blank (by simp [hr, Text.isBlank_space]) (by simp)
  calc collapse (l ++ op.sep ++ r)
      = collapse ((l ++ [' ']) ++ op.keyword.toList ++ (' ' :: r)) := by simp [sep]
    _ = op.sep := by
      rw [hsolid.collapse_append_append, hfront, hkeyword, hback]
      rfl

/-- Two texts that are joined collapse by themselves, apart from the white space beside the
operator. -/
theorem exists_collapse_join (op : Operator) (hs : isBlankText s = false)
    (ht : isBlankText t = false) :
    ∃ u v, collapse (s ++ op.sep ++ t) = u ++ (op.sep ++ v) ∧
      Padded u (collapse s) ∧ Padded v (collapse t) := by
  obtain ⟨l, r, hs', -, hr⟩ := Text.exists_trim s
  obtain ⟨l', r', ht', hl', -⟩ := Text.exists_trim t
  have hends := (Text.solid_trim_of_not_isBlankText hs).ends.append l
  have hstarts := (Text.solid_trim_of_not_isBlankText ht).starts.append r'
  refine ⟨collapse (l ++ trim s), collapse (trim t ++ r'), ?_, ?_, ?_⟩
  · have hjoin : s ++ op.sep ++ t
        = (l ++ trim s) ++ ((r ++ op.sep ++ l') ++ (trim t ++ r')) := by
      conv_lhs => rw [hs', ht']
      simp only [List.append_assoc]
    rw [hjoin, hends.collapse_append, Text.collapse_append _ hstarts,
      collapse_blank_sep_blank hr hl']
  · have hcollapse : collapse s = collapse (l ++ trim s) ++ collapse r := by
      rw [← hends.collapse_append, ← hs']
    exact ⟨[], collapse r, by rw [hcollapse, List.nil_append], Or.inl rfl,
      Text.optSpace_collapse hr⟩
  · have hcollapse : collapse t = collapse l' ++ collapse (trim t ++ r') := by
      rw [← Text.collapse_append l' hstarts, ← List.append_assoc, ← ht']
    exact ⟨collapse l', [], by rw [hcollapse, List.append_nil], Text.optSpace_collapse hl',
      Or.inl rfl⟩

/-- No pair encloses a join: the partner of its first `(` stands in its first half. -/
theorem strip_join (hb : Balanced s) (hs : isBlankText s = false) (ht : isBlankText t = false) :
    strip (s ++ op.sep ++ t) = s ++ op.sep ++ t := by
  obtain ⟨l, r, hs', hl, -⟩ := Text.exists_trim s
  obtain ⟨l', r', ht', -, hr'⟩ := Text.exists_trim t
  have hsolid := Text.solid_trim_of_not_isBlankText hs
  have hsolid' := Text.solid_trim_of_not_isBlankText ht
  have hjoin : s ++ op.sep ++ t
      = l ++ (trim s ++ (r ++ op.sep ++ l') ++ trim t) ++ r' := by
    conv_lhs => rw [hs', ht']
    simp only [List.append_assoc]
  apply Paren.strip_of_enclosed?_eq_none
  rw [hjoin, Text.trim_append_append hl (Text.Solid.append hsolid.starts hsolid'.ends _) hr',
    List.append_assoc]
  exact Paren.enclosed?_append_eq_none (Paren.balanced_trim.2 hb) hsolid.ne_nil (by simp [sep])

/-- A text that collapses to one with an opening at its end has the keyword for its last word. -/
theorem not_opening_suffix_of_lastWord {u : List Char} (h : lastWord s ≠ op.keyword.toList)
    (hu : Padded u (collapse s)) : ¬ op.opening <:+ u := by
  obtain ⟨l, r, hcollapse, -, hr⟩ := hu
  rintro ⟨x, rfl⟩
  refine h (Text.lastWord_of_collapse op.keyword_ne_nil op.not_isBlank_of_mem_keyword
    hr.isBlankText (u := l ++ x) ?_)
  rw [hcollapse, opening]
  simp

end Operator

/-- If each of two expressions compiles by itself and the last word of the first is not `OR`, then
their join by `OR` compiles to the clauses of the first and then those of the second. -/
theorem compileWithin_disjunction {k₁ k₂ m : Nat} {e₁ e₂ : String} {d₁ d₂ : Dnf}
    (h₁ : compileWithin k₁ e₁ = .ok d₁) (h₂ : compileWithin k₂ e₂ = .ok d₂)
    (hword : lastWord e₁.toList ≠ Operator.or.keyword.toList)
    (hm : (e₁ ++ Operator.or.separator ++ e₂).toList.count '(' ≤ m) :
    compileWithin m (e₁ ++ Operator.or.separator ++ e₂) = .ok (Dnf.any [d₁, d₂]) := by
  obtain ⟨hb₁, q₁, hq₁, rfl⟩ := compileWithin_eq_ok_iff.1 h₁
  obtain ⟨hb₂, q₂, hq₂, rfl⟩ := compileWithin_eq_ok_iff.1 h₂
  have hs₁ := Query.not_isBlankText_of_parseWithin hq₁
  have hs₂ := Query.not_isBlankText_of_parseWithin hq₂
  have htext : (e₁ ++ Operator.or.separator ++ e₂).toList
      = e₁.toList ++ Operator.or.sep ++ e₂.toList := by
    rw [String.toList_append, String.toList_append, Operator.toList_separator]
  rw [htext, List.count_append, List.count_append] at hm
  obtain ⟨u, v, hcollapse, hu, hv⟩ := Operator.exists_collapse_join .or hs₁ hs₂
  have hbody : Query.body (e₁.toList ++ Operator.or.sep ++ e₂.toList)
      = u ++ (Operator.or.sep ++ v) := by
    rw [Query.body, Operator.strip_join hb₁ hs₁ hs₂, hcollapse]
  have hcut : Operator.or.operands (u ++ (Operator.or.sep ++ v))
      = Operator.or.operands u ++ Operator.or.operands v :=
    Operator.operands_append_sep (hu.balanced (Paren.balanced_collapse.2 hb₁))
      (Operator.not_opening_suffix_of_lastWord hword hu) v
  -- each half is read as it is read by itself
  have hn₁ := Paren.nesting_le_count e₁.toList
  have hn₂ := Paren.nesting_le_count e₂.toList
  obtain ⟨qs₁, hqs₁, hd₁⟩ := Query.exists_alternatives (m := m) hb₁ hq₁ (by omega) hu 0
  obtain ⟨qs₂, hqs₂, hd₂⟩ := Query.exists_alternatives (m := m) hb₂ hq₂ (by omega) hv 0
  have halts : Query.alternatives (Query.parseWithin m m 1)
      (Query.body (e₁.toList ++ Operator.or.sep ++ e₂.toList)) = .ok (qs₁ ++ qs₂) := by
    unfold Query.alternatives at hqs₁ hqs₂ ⊢
    rw [hbody, hcut, List.mapM_append, hqs₁, hqs₂]
    rfl
  have hread : (Query.parse m (e₁.toList ++ Operator.or.sep ++ e₂.toList)).result
      = .ok (.any (qs₁ ++ qs₂)) :=
    (Query.parseLevel_eq_ok_iff _).2 ⟨(Query.ignoresSpaces_alternatives _).not_blank halts,
      qs₁ ++ qs₂, rfl, Traced.mapM_eq_ok_iff.1 halts⟩
  have hdnf : (Query.any (qs₁ ++ qs₂)).dnf = Dnf.any [q₁.dnf, q₂.dnf] := by
    rw [← hd₁, ← hd₂, Query.dnf_any, Query.dnf_any, Query.dnf_any, List.map_append,
      Dnf.any_append]
  rw [compileWithin_eq_ok_iff, htext]
  exact ⟨(hb₁.append (Operator.balanced_sep .or)).append hb₂, _, hread, hdnf⟩

/-- The first expression begins and ends with operator words, the second is enclosed; blanks of
both stand beside the operator. -/
theorem compileWithin_disjunction_operator_words :
    compileWithin 1 "\t(OR a  OR  b) OR c AND" = .ok ⟨[⟨[⟨"OR a"⟩]⟩, ⟨[⟨"b"⟩]⟩, ⟨[⟨"c AND"⟩]⟩]⟩ ∧
    compileWithin 1 "\n((x OR y) AND OR)  " = .ok ⟨[⟨[⟨"x"⟩, ⟨"OR"⟩]⟩, ⟨[⟨"y"⟩, ⟨"OR"⟩]⟩]⟩ ∧
    lastWord "\t(OR a  OR  b) OR c AND".toList ≠ Operator.or.keyword.toList ∧
    ("\t(OR a  OR  b) OR c AND" ++ Operator.or.separator
      ++ "\n((x OR y) AND OR)  ").toList.count '(' ≤ 3 ∧
    compileWithin 3 ("\t(OR a  OR  b) OR c AND" ++ Operator.or.separator
        ++ "\n((x OR y) AND OR)  ")
      = .ok ⟨[⟨[⟨"OR a"⟩]⟩, ⟨[⟨"b"⟩]⟩, ⟨[⟨"c AND"⟩]⟩, ⟨[⟨"x"⟩, ⟨"OR"⟩]⟩, ⟨[⟨"y"⟩, ⟨"OR"⟩]⟩]⟩ := by
  have h₁ : compileWithin 1 "\t(OR a  OR  b) OR c AND"
      = .ok ⟨[⟨[⟨"OR a"⟩]⟩, ⟨[⟨"b"⟩]⟩, ⟨[⟨"c AND"⟩]⟩]⟩ := by decide +kernel
  have h₂ : compileWithin 1 "\n((x OR y) AND OR)  "
      = .ok ⟨[⟨[⟨"x"⟩, ⟨"OR"⟩]⟩, ⟨[⟨"y"⟩, ⟨"OR"⟩]⟩]⟩ := by decide +kernel
  have hword : lastWord "\t(OR a  OR  b) OR c AND".toList ≠ Operator.or.keyword.toList := by
    decide +kernel
  have hcount : ("\t(OR a  OR  b) OR c AND" ++ Operator.or.separator
      ++ "\n((x OR y) AND OR)  ").toList.count '(' ≤ 3 := by
    decide +kernel
  exact ⟨h₁, h₂, hword, hcount, compileWithin_disjunction h₁ h₂ hword hcount⟩

end BooleanQuery
