import BooleanQuery.Proofs.Query.Joined

/-!
# Compiling a conjunction

What a conjunction of terms and groups compiles to is a matter of what stands in the groups, each
compiled as a text of its own. The texts may be anything that is balanced, blank ones and ones
that begin or end with an operator included: a pair of parentheses keeps them apart from all that
stands around them.

The law is one equation between runs (`compileWithin_conjunctionText`). It says at once that the
normal form is the product of those of the groups, the terms making up one last factor, and that
the first group that is rejected decides how the whole is.
-/

set_option autoImplicit false

namespace BooleanQuery

open Text (collapse Solid OptSpace)
open Paren (Balanced strip nesting)

/-- An operand of a conjunction. -/
inductive Conjunct where
  | plain (t : Term)
  | group (content : String)
deriving DecidableEq

namespace Conjunct

def text : Conjunct → String
  | .plain t => t.text
  | .group e => "(" ++ e ++ ")"

/-- A term that is read as one term, or a group that is balanced. -/
def Valid : Conjunct → Prop
  | .plain t => Clean t.text.toList
  | .group e => Balanced e.toList

instance : DecidablePred Valid
  | .plain t => inferInstanceAs (Decidable (Clean t.text.toList))
  | .group e => inferInstanceAs (Decidable (Balanced e.toList))

def term? : Conjunct → Option Term
  | .plain t => some t
  | .group _ => none

def content? : Conjunct → Option String
  | .plain _ => none
  | .group e => some e

theorem toList_text_group (e : String) :
    (Conjunct.group e).text.toList = '(' :: e.toList ++ [')'] := by
  simp [text]

theorem Valid.solid {c : Conjunct} (h : c.Valid) : Solid c.text.toList := by
  cases c with
  | plain t => exact Clean.solid h
  | group e =>
    rw [toList_text_group]
    exact Text.solid_group e.toList

theorem Valid.balanced {c : Conjunct} (h : c.Valid) : Balanced c.text.toList := by
  cases c with
  | plain t => exact Clean.balanced h
  | group e =>
    rw [toList_text_group]
    exact Paren.Balanced.group h

theorem Valid.sealed {c : Conjunct} (h : c.Valid) : Sealed (collapse c.text.toList) := by
  cases c with
  | plain t =>
    have hclean : Clean t.text.toList := h
    rw [text, hclean.collapse_eq]
    exact hclean.sealed
  | group e =>
    rw [toList_text_group, Text.collapse_group]
    exact sealed_group (Paren.balanced_collapse.2 h) (Text.collapse_collapse e.toList)

end Conjunct

/-- The operands joined by `AND`. -/
def conjunctionText (cs : List Conjunct) : String :=
  Operator.and.separator.intercalate (cs.map Conjunct.text)

theorem toList_conjunctionText (cs : List Conjunct) :
    (conjunctionText cs).toList
      = Operator.and.sep.intercalate (cs.map fun c => c.text.toList) := by
  unfold conjunctionText
  rw [String.toList_intercalate, Operator.toList_separator, List.map_map]
  rfl

theorem dnf_conjunction (qs : List Query) :
    Query.dnf (.any [.all qs]) = Dnf.all (Query.factors qs) := by
  rw [Query.dnf_any, List.map_singleton, Dnf.any_singleton, Query.dnf_all]

/-! ## One operand -/

/-- In a pair of parentheses a text compiles to what it compiles to by itself. -/
theorem map_dnf_group {limit levels : Nat} (depth : Nat) {e : String} (he : Balanced e.toList)
    (hlimit : nesting e.toList ≤ limit) (hlevels : nesting e.toList < levels) :
    (Query.parseWithin limit levels depth ('(' :: e.toList ++ [')'])).result.map Query.dnf
      = compileWithin limit e := by
  have hstrip := Nat.lt_succ_of_le (Nat.le_trans (Paren.nesting_strip_le e.toList) hlimit)
  rw [compileWithin_of_balanced limit he, Query.parse]
  exact Query.map_dnf_parseWithin_group 0 he hlevels hstrip

/-- A group is rejected as its text is, or it is a compound operand with the normal form of it. -/
theorem parseOperand_conjunct_group {limit : Nat} {e : String} (he : Balanced e.toList)
    (hlimit : nesting e.toList < limit) (depth : Nat) :
    (∃ r, (Query.parseOperand (Query.parseWithin limit limit depth)
        (collapse (Conjunct.group e).text.toList)).result = .error r ∧
      compileWithin limit e = .error r) ∨
    (∃ q, (Query.parseOperand (Query.parseWithin limit limit depth)
        (collapse (Conjunct.group e).text.toList)).result = .ok q ∧
      q.term? = none ∧ compileWithin limit e = .ok q.dnf) := by
  have hcollapse : Balanced (collapse e.toList) := Paren.balanced_collapse.2 he
  have hbody : Query.body ('(' :: collapse e.toList ++ [')'])
      = Query.body ('(' :: e.toList ++ [')']) := by
    rw [Query.body_group hcollapse, Query.body_group he, Text.collapse_collapse]
  have hdnf := map_dnf_group depth he (Nat.le_of_lt hlimit) hlimit
  rw [Conjunct.toList_text_group, Text.collapse_group, Query.parseOperand_group _ hcollapse,
    Query.result_parseWithin_congr limit limit depth depth hbody, ← hdnf]
  cases h : (Query.parseWithin limit limit depth ('(' :: e.toList ++ [')'])).result with
  | error r => exact Or.inl ⟨r, rfl, rfl⟩
  | ok q => exact Or.inr ⟨q, rfl, Query.term?_of_parseWithin h, rfl⟩

/-! ## All operands -/

/-- Reading the operands and compiling the groups are rejected together; otherwise the groups are
what is compound among the queries, and the terms what is plain. -/
theorem mapM_conjuncts {limit : Nat} (depth : Nat) {cs : List Conjunct}
    (hcs : ∀ c ∈ cs, c.Valid) (hlimit : ∀ e, .group e ∈ cs → nesting e.toList < limit) :
    (∃ r, (cs.mapM fun c => (Query.parseOperand (Query.parseWithin limit limit depth)
        (collapse c.text.toList)).result) = .error r ∧
      (cs.filterMap Conjunct.content?).mapM (compileWithin limit) = .error r) ∨
    (∃ qs, (cs.mapM fun c => (Query.parseOperand (Query.parseWithin limit limit depth)
        (collapse c.text.toList)).result) = .ok qs ∧
      (cs.filterMap Conjunct.content?).mapM (compileWithin limit) = .ok (Query.compoundDnfs qs) ∧
      qs.filterMap Query.term? = cs.filterMap Conjunct.term?) := by
  induction cs with
  | nil => exact Or.inr ⟨[], rfl, rfl, rfl⟩
  | cons c cs ih =>
    have ih := ih (fun d hd => hcs d (by simp [hd])) fun e he => hlimit e (by simp [he])
    rw [List.mapM_cons]
    -- a term adds to neither run a way to fail, and a group adds the same one to both
    cases c with
    | plain t =>
      have hclean : Clean t.text.toList := hcs (.plain t) (by simp)
      have hread : (Query.parseOperand (Query.parseWithin limit limit depth)
          (collapse (Conjunct.plain t).text.toList)).result = .ok (.term t) := by
        rw [Conjunct.text, hclean.collapse_eq, Query.parseOperand_clean hclean]
        rfl
      rw [hread]
      rcases ih with ⟨r, hr, hr'⟩ | ⟨qs, hqs, hds, hterms⟩
      · exact Or.inl ⟨r, by rw [hr]; rfl, hr'⟩
      · refine Or.inr ⟨.term t :: qs, by rw [hqs]; rfl, hds, ?_⟩
        simp only [List.filterMap_cons, Query.term?, Conjunct.term?, hterms]
    | group e =>
      have hcontents : (Conjunct.group e :: cs).filterMap Conjunct.content?
          = e :: cs.filterMap Conjunct.content? := rfl
      rw [hcontents, List.mapM_cons]
      rcases parseOperand_conjunct_group (hcs (.group e) (by simp)) (hlimit e (by simp)) depth with
        ⟨r, hr, hr'⟩ | ⟨q, hq, hcompound, hd⟩
      · exact Or.inl ⟨r, by rw [hr]; rfl, by rw [hr']; rfl⟩
      · rw [hq, hd]
        rcases ih with ⟨r, hr, hr'⟩ | ⟨qs, hqs, hds, hterms⟩
        · exact Or.inl ⟨r, by rw [hr]; rfl, by rw [hr']; rfl⟩
        · refine Or.inr ⟨q :: qs, by rw [hqs]; rfl, ?_, ?_⟩
          · rw [hds, Query.compoundDnfs_cons hcompound]
            rfl
          · rw [List.filterMap_cons_none hcompound, hterms]
            rfl

theorem nesting_lt_of_count {limit : Nat} {cs : List Conjunct}
    (h : (conjunctionText cs).toList.count '(' ≤ limit) :
    ∀ e, .group e ∈ cs → nesting e.toList < limit := by
  intro e he
  have hinfix : (Conjunct.group e).text.toList <:+: (conjunctionText cs).toList := by
    rw [toList_conjunctionText]
    exact Operator.infix_intercalate _ (List.mem_map_of_mem (f := fun c => c.text.toList) he)
  have hcount := hinfix.sublist.count_le '('
  rw [Conjunct.toList_text_group, List.cons_append, List.count_cons_self, List.count_append]
    at hcount
  have := Paren.nesting_le_count e.toList
  omega

/-- Only a single group is enclosed. -/
theorem strip_conjunctionText {cs : List Conjunct} (hne : cs ≠ []) (hcs : ∀ c ∈ cs, c.Valid)
    (hgroup : ∀ e, cs ≠ [.group e]) :
    strip (conjunctionText cs).toList = (conjunctionText cs).toList := by
  have hsolid : Solid (conjunctionText cs).toList := by
    rw [toList_conjunctionText]
    refine Operator.solid_intercalate (by simpa using hne) ?_
    rw [List.forall_mem_map]
    exact fun c hc => (hcs c hc).solid
  have henc : Paren.enclosed? (conjunctionText cs).toList = none := by
    rw [toList_conjunctionText]
    match cs, hne with
    | [.plain t], _ =>
      have hclean : Clean t.text.toList := hcs (.plain t) (by simp)
      rw [List.map_singleton, List.intercalate_singleton]
      exact Paren.enclosed?_eq_none_of_not_hasParen hclean.hasParen_eq
    | [.group e], _ => exact absurd rfl (hgroup e)
    | c :: d :: cs, _ =>
      -- the text goes on after a first operand that is balanced by itself
      have hc := hcs c (by simp)
      rw [List.map_cons, List.map_cons, List.intercalate_cons_cons, List.append_assoc]
      exact Paren.enclosed?_append_eq_none hc.balanced hc.solid.ne_nil (by simp [Operator.sep])
  exact Paren.strip_of_enclosed?_eq_none (by rwa [hsolid.trim_eq])

/-- The run over the operands that reading the conjunction comes to. -/
theorem result_parse_conjunctionText {limit : Nat} {cs : List Conjunct} (hne : cs ≠ [])
    (hcs : ∀ c ∈ cs, c.Valid) (hgroup : ∀ e, cs ≠ [.group e]) :
    (Query.parse limit (conjunctionText cs).toList).result
      = (cs.mapM fun c => (Query.parseOperand (Query.parseWithin limit limit 1)
          (collapse c.text.toList)).result).map fun qs => .any [.all qs] := by
  have hsolid : ∀ s ∈ cs.map fun c => c.text.toList, Solid s := by
    rw [List.forall_mem_map]
    exact fun c hc => (hcs c hc).solid
  have hsealed : ∀ o ∈ cs.map fun c => collapse c.text.toList, Sealed o := by
    rw [List.forall_mem_map]
    exact fun c hc => (hcs c hc).sealed
  have hbody : Query.body (conjunctionText cs).toList
      = [] ++ Operator.and.sep.intercalate (cs.map fun c => collapse c.text.toList) ++ [] := by
    rw [Query.body, strip_conjunctionText hne hcs hgroup, toList_conjunctionText,
      Operator.collapse_intercalate hsolid, List.map_map, List.nil_append, List.append_nil]
    rfl
  have hlevel := Query.result_parseLevel_conjunction (Query.parseWithin limit limit 1) 0
    (by simpa using hne) hsealed (Or.inl rfl) (Or.inl rfl) hbody
  rw [List.mapM_map] at hlevel
  exact hlevel

theorem compileWithin_conjunctionText {limit : Nat} {cs : List Conjunct} (hne : cs ≠ [])
    (hcs : ∀ c ∈ cs, c.Valid) (hcount : (conjunctionText cs).toList.count '(' ≤ limit) :
    compileWithin limit (conjunctionText cs)
      = ((cs.filterMap Conjunct.content?).mapM (compileWithin limit)).map
          fun ds => Dnf.all (ds ++ [Dnf.ofTerms (cs.filterMap Conjunct.term?)]) := by
  have hlimit := nesting_lt_of_count hcount
  have hbal : Balanced (conjunctionText cs).toList := by
    rw [toList_conjunctionText]
    refine Operator.balanced_intercalate ?_
    rw [List.forall_mem_map]
    exact fun c hc => (hcs c hc).balanced
  rw [compileWithin_of_balanced limit hbal]
  by_cases hgroup : ∃ e, cs = [.group e]
  · -- a single group is enclosed, so that its pair is dropped where the others are descended into
    obtain ⟨e, rfl⟩ := hgroup
    have he : nesting e.toList < limit := hlimit e (by simp)
    rw [toList_conjunctionText, List.map_singleton, List.intercalate_singleton,
      Conjunct.toList_text_group, Query.parse,
      map_dnf_group 0 (hcs (.group e) (by simp)) (Nat.le_of_lt he) (Nat.lt_succ_of_lt he)]
    show _ = ([e].mapM (compileWithin limit)).map fun ds => Dnf.all (ds ++ [Dnf.always])
    rw [List.mapM_cons, List.mapM_nil]
    cases compileWithin limit e with
    | error r => rfl
    | ok d =>
      show Except.ok d = .ok (Dnf.all [d, Dnf.always])
      rw [Dnf.all_cons, Dnf.all_singleton, Dnf.cross_always]
  · rw [result_parse_conjunctionText hne hcs fun e he => hgroup ⟨e, he⟩]
    rcases mapM_conjuncts 1 hcs hlimit with ⟨r, hr, hr'⟩ | ⟨qs, hqs, hds, hterms⟩
    · rw [hr, hr']
      rfl
    · rw [hqs, hds, ← hterms]
      exact congrArg Except.ok (dnf_conjunction qs)

/-- If every group compiles by itself, the conjunction compiles to the product of their normal forms
and of the one clause of its terms; otherwise it is rejected as the first group is that does not. -/
theorem compileWithin_conjunction (limit : Nat) (cs : List Conjunct) (hne : cs ≠ [])
    (hcs : ∀ c ∈ cs, c.Valid) (hcount : (conjunctionText cs).toList.count '(' ≤ limit) :
    (∀ ds, List.Forall₂ (fun e d => compileWithin limit e = .ok d)
        (cs.filterMap Conjunct.content?) ds →
      compileWithin limit (conjunctionText cs)
        = .ok (Dnf.all (ds ++ [Dnf.ofTerms (cs.filterMap Conjunct.term?)]))) ∧
    (∀ pre e post r, cs.filterMap Conjunct.content? = pre ++ e :: post →
      (∀ e' ∈ pre, ∃ d, compileWithin limit e' = .ok d) → compileWithin limit e = .error r →
      compileWithin limit (conjunctionText cs) = .error r) := by
  rw [compileWithin_conjunctionText hne hcs hcount]
  constructor
  · intro ds hds
    rw [Traced.mapM_eq_ok_iff.2 hds]
    rfl
  · intro pre e post r heq hpre he
    rw [Traced.mapM_eq_error_iff.2 ⟨pre, e, post, heq, hpre, he⟩]
    rfl

/-- The first conjunction has an enclosed group and an operator word as a group; in the second the
first of two groups that are no expressions decides. -/
theorem compileWithin_conjunction_groups :
    compileWithin 3 (conjunctionText
        [.plain ⟨"x"⟩, .group " (a OR b) ", .plain ⟨"y z"⟩, .group "AND"])
      = .ok (Dnf.all [⟨[⟨[⟨"a"⟩]⟩, ⟨[⟨"b"⟩]⟩]⟩, ⟨[⟨[⟨"AND"⟩]⟩]⟩, Dnf.ofTerms [⟨"x"⟩, ⟨"y z"⟩]]) ∧
    compileWithin 4 (conjunctionText
        [.group "a", .plain ⟨"x"⟩, .group "b OR ", .group "c (d)"]) = .error .blank := by
  have hx : ∀ c ∈ [Conjunct.plain ⟨"x"⟩, .group " (a OR b) ", .plain ⟨"y z"⟩, .group "AND"],
      c.Valid := by decide +kernel
  have ha : ∀ c ∈ [Conjunct.group "a", .plain ⟨"x"⟩, .group "b OR ", .group "c (d)"],
      c.Valid := by decide +kernel
  obtain ⟨hproduct, -⟩ := compileWithin_conjunction 3
    [.plain ⟨"x"⟩, .group " (a OR b) ", .plain ⟨"y z"⟩, .group "AND"] (by simp) hx
    (by decide +kernel)
  obtain ⟨-, hfirst⟩ := compileWithin_conjunction 4
    [.group "a", .plain ⟨"x"⟩, .group "b OR ", .group "c (d)"] (by simp) ha (by decide +kernel)
  constructor
  · refine hproduct [⟨[⟨[⟨"a"⟩]⟩, ⟨[⟨"b"⟩]⟩]⟩, ⟨[⟨[⟨"AND"⟩]⟩]⟩] (.cons ?_ (.cons ?_ .nil))
    · decide +kernel
    · decide +kernel
  · refine hfirst ["a"] "b OR " ["c (d)"] .blank rfl ?_ (by decide +kernel)
    intro e he
    obtain rfl := List.mem_singleton.1 he
    exact ⟨⟨[⟨[⟨"a"⟩]⟩]⟩, by decide +kernel⟩

end BooleanQuery
