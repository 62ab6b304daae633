import BooleanQuery.Proofs.Query.NormalForm
import BooleanQuery.Proofs.Query.Reading

/-!
# What an accepted text says

The grammar of expressions, as it is given to the people who write them: alternatives joined by
`OR`, each of them operands joined by `AND`, an operand a plain text or an expression in
parentheses. The four predicates below say of a query and a text that the text can be derived by
the grammar with the query as its tree. They know nothing of levels, of stripping or of limits.

The grammar is ambiguous, because a plain text may hold an operator word. What is proved is that
every text that compiles has a derivation that the normal form agrees with (`exists_derivation`):
in what it means, in how many clauses it has, and in which terms occur.
-/

set_option autoImplicit false

namespace BooleanQuery

open Text (trim collapse isBlankText OptSpace SingleSpaced)
open Paren (Balanced hasParen strip)

namespace Grammar

mutual

inductive Atom : Query → List Char → Prop
  | text {s : List Char} (hblank : isBlankText s = false) (hparen : hasParen s = false) :
      Atom (Query.plainTerm (trim s)) s
  | group {q : Query} {s : List Char} (h : Expression q s) : Atom q ('(' :: s ++ [')'])

inductive Operand : Query → List Char → Prop
  | mk {q : Query} {l s r : List Char} (hl : OptSpace l) (h : Atom q s) (hr : OptSpace r) :
      Operand q (l ++ s ++ r)

inductive Conjunction : Query → List Char → Prop
  | mk {qs : List Query} {os : List (List Char)} (hne : os ≠ [])
      (h : List.Forall₂ Operand qs os) : Conjunction (.all qs) (Operator.and.sep.intercalate os)

inductive Expression : Query → List Char → Prop
  | mk {qs : List Query} {as : List (List Char)} (hne : as ≠ [])
      (h : List.Forall₂ Conjunction qs as) : Expression (.any qs) (Operator.or.sep.intercalate as)

end

/-- A pair of parentheses with space around it is an expression of one operand. -/
theorem Expression.enclose {q : Query} {l s r : List Char} (h : Expression q s)
    (hl : OptSpace l) (hr : OptSpace r) :
    Expression (.any [.all [q]]) (l ++ ('(' :: s ++ [')']) ++ r) := by
  have hoperand : Operand q (l ++ ('(' :: s ++ [')']) ++ r) := .mk hl (.group h) hr
  have hconj : Conjunction (.all [q]) (l ++ ('(' :: s ++ [')']) ++ r) := by
    have := Conjunction.mk (by simp) (.cons hoperand .nil)
    rwa [List.intercalate_singleton] at this
  have := Expression.mk (by simp) (.cons hconj .nil)
  rwa [List.intercalate_singleton] at this

end Grammar

namespace Query

open Grammar

/-! ## From a reading to a derivation -/

section Step

variable {descend : List Char → Traced Query}

/-- What is read of an operand can be derived if this is so of every group that it may be. -/
theorem operand_of_parseOperand {q : Query} {o : List Char} (hs : SingleSpaced o)
    (h : (parseOperand descend o).result = .ok q)
    (hdescend : ∀ c, Balanced c → SingleSpaced c →
      (descend ('(' :: c ++ [')'])).result = .ok q → Expression q c ∧ q.Proper) :
    Operand q o ∧ q.Proper := by
  obtain ⟨l, r, ho, hl, hr⟩ := hs.exists_trim
  rcases parseOperand_eq_ok_cases h with ⟨hne, hparen, rfl⟩ | ⟨c, htrim, hc, hq⟩
  · have hsolid := Text.solid_trim hne
    have hatom := Atom.text hsolid.not_isBlankText hparen
    rw [hsolid.trim_eq] at hatom
    have hoperand := Operand.mk hl hatom hr
    rw [← ho] at hoperand
    exact ⟨hoperand, trivial⟩
  · have hinfix : c <:+: o := by
      rw [ho, htrim]
      exact ⟨l ++ ['('], [')'] ++ r, by simp⟩
    obtain ⟨hexpr, hproper⟩ := hdescend c hc (hs.part hinfix) hq
    refine ⟨?_, hproper⟩
    rw [ho, htrim]
    exact .mk hl (.group hexpr) hr

/-- The values of a run satisfy what every one of them does, item by item. -/
theorem forall₂_of_run {r p : Query → List Char → Prop} {os : List (List Char)} {qs : List Query}
    (h : List.Forall₂ (fun o q => r q o) os qs)
    (hstep : ∀ o ∈ os, ∀ q, r q o → p q o ∧ q.Proper) :
    List.Forall₂ p qs os ∧ ProperList qs := by
  induction h with
  | nil => exact ⟨.nil, trivial⟩
  | cons hr _ ih =>
    obtain ⟨hp, hproper⟩ := hstep _ (by simp) _ hr
    obtain ⟨hps, hpropers⟩ := ih fun o ho => hstep o (by simp [ho])
    exact ⟨.cons hp hps, hproper, hpropers⟩

theorem conjunction_of_parseAlternative {q : Query} {a : List Char}
    (h : (parseAlternative descend a).result = .ok q)
    (hoperand : ∀ o ∈ Operator.and.operands a, ∀ q,
      (parseOperand descend o).result = .ok q → Operand q o ∧ q.Proper) :
    Conjunction q a ∧ q.Proper := by
  obtain ⟨qs, rfl, hqs⟩ := (parseAlternative_eq_ok_iff _).1 h
  have hne := Operator.operands_ne_nil .and a
  obtain ⟨hops, hproper⟩ := forall₂_of_run hqs hoperand
  have hconj := Conjunction.mk hne hops
  rw [Operator.intercalate_operands] at hconj
  refine ⟨hconj, ?_, hproper⟩
  rintro rfl
  exact hne (List.forall₂_nil_left_iff.1 hops)

theorem expression_of_parseLevel {q : Query} {depth : Nat} {s : List Char}
    (h : (parseLevel descend depth s).result = .ok q)
    (hconj : ∀ a ∈ Operator.or.operands (body s), ∀ q,
      (parseAlternative descend a).result = .ok q → Conjunction q a ∧ q.Proper) :
    Expression q (body s) ∧ q.Proper := by
  obtain ⟨-, qs, rfl, hqs⟩ := (parseLevel_eq_ok_iff _).1 h
  have hne := Operator.operands_ne_nil .or (body s)
  obtain ⟨hconjs, hproper⟩ := forall₂_of_run hqs hconj
  have hexpr := Expression.mk hne hconjs
  rw [Operator.intercalate_operands] at hexpr
  refine ⟨hexpr, ?_, hproper⟩
  rintro rfl
  exact hne (List.forall₂_nil_left_iff.1 hconjs)

end Step

theorem expression_of_parseWithin {limit levels depth : Nat} {s : List Char} {q : Query}
    (h : (parseWithin limit levels depth s).result = .ok q) :
    Expression q (body s) ∧ q.Proper := by
  induction levels generalizing depth s q with
  | zero => exact absurd h (by simp)
  | succ levels ih =>
    apply expression_of_parseLevel h
    intro a ha qa hqa
    apply conjunction_of_parseAlternative hqa
    intro o ho qo hqo
    have hinfix : o <:+: body s := IsOperand.part ⟨a, ha, ho⟩
    apply operand_of_parseOperand ((singleSpaced_body s).part hinfix) hqo
    intro c hc hsc hq
    -- the body of a group that is single-spaced already is what stands in the group
    have := ih hq
    rwa [body_group hc, hsc.collapse_eq] at this

end Query

/-! ## The whole text -/

open Grammar in
/-- A text that compiles can be derived, with a tree that has the meaning of its normal form, as
many ways to choose one alternative at each `OR` as there are clauses, and the same terms. -/
theorem exists_derivation (limit : Nat) (e : String) (d : Dnf)
    (h : compileWithin limit e = .ok d) :
    ∃ q : Query, Expression q (collapse e.toList) ∧ (∀ v, d.holds v = q.holds v) ∧
      d.size = q.clauseCount ∧ ∀ t, t ∈ d.terms ↔ t ∈ q.leaves := by
  obtain ⟨-, p, hp, hd⟩ := compileWithin_eq_ok_iff.1 h
  obtain ⟨hexpr, hproper⟩ := Query.expression_of_parseWithin hp
  obtain ⟨q, hq, hqproper, hqd⟩ :
      ∃ q : Query, Expression q (collapse e.toList) ∧ q.Proper ∧ q.dnf = d := by
    rcases Paren.strip_cases e.toList with ⟨c, htrim, hc, hstrip⟩ | ⟨-, hstrip⟩
    · -- the pair that was stripped is a group of its own in the derivation
      rw [Query.body, hstrip] at hexpr
      obtain ⟨l, r, hcollapse, hl, hr⟩ := Text.exists_collapse_trim e.toList
      rw [htrim, Text.collapse_group] at hcollapse
      refine ⟨.any [.all [p]], ?_, by simp [Query.Proper, Query.ProperList, hproper], ?_⟩
      · rw [hcollapse]
        exact hexpr.enclose hl hr
      · rw [Query.dnf_any_all_singleton, hd]
    · rw [Query.body, hstrip] at hexpr
      exact ⟨p, hexpr, hproper, hd⟩
  rw [← hqd]
  refine ⟨q, hq, ?_, Query.size_dnf q, ?_⟩
  · intro v
    exact Query.holds_dnf v q
  · intro t
    exact Query.mem_terms_dnf hqproper

/-- An operator word that stands alone between two operators is a plain text like any other. -/
theorem exists_derivation_operator_words :
    compileWithin 2 "OR OR OR OR ( a AND (AND) )"
        = .ok ⟨[⟨[⟨"OR"⟩]⟩, ⟨[⟨"OR"⟩]⟩, ⟨[⟨"AND"⟩, ⟨"a"⟩]⟩]⟩ ∧
      ∃ q : Query, Grammar.Expression q (collapse "OR OR OR OR ( a AND (AND) )".toList) ∧
        (∀ v, Dnf.holds v ⟨[⟨[⟨"OR"⟩]⟩, ⟨[⟨"OR"⟩]⟩, ⟨[⟨"AND"⟩, ⟨"a"⟩]⟩]⟩ = q.holds v) ∧
        3 = q.clauseCount ∧
        ∀ t, t ∈ [Term.mk "OR", ⟨"OR"⟩, ⟨"AND"⟩, ⟨"a"⟩] ↔ t ∈ q.leaves := by
  have h : compileWithin 2 "OR OR OR OR ( a AND (AND) )"
      = .ok ⟨[⟨[⟨"OR"⟩]⟩, ⟨[⟨"OR"⟩]⟩, ⟨[⟨"AND"⟩, ⟨"a"⟩]⟩]⟩ := by decide +kernel
  exact ⟨h, exists_derivation 2 _ _ h⟩

end BooleanQuery
