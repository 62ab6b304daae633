import BooleanQuery.Proofs.Compile.Grammar
import BooleanQuery.Proofs.Compile.Plain
import BooleanQuery.Proofs.Query.Places

/-!
# The terms of what compiles

A term comes about in one way: it is an operand of a level somewhere in the text, trimmed
(`exists_operand_of_mem_leaves`). What is known of such operands is therefore known of the terms of
a normal form. They are tidy, and they have no separator of either operator
(`Term.Atomic`). Besides, a normal form that is compiled has a clause, and each clause a term
(`Dnf.WellFormed`). And as operands are pieces of the text, so are the terms
(`compileWithin_terms`).

That does not say that the operators *between* the terms can be told from the terms: a term may
begin or end with an operator word.
-/

set_option autoImplicit false

namespace BooleanQuery

open Text (trim collapse isBlankText)
open Paren (Balanced hasParen)

/-- The term is tidy and cannot be cut. -/
structure Term.Atomic (t : Term) : Prop where
  tidy : Tidy t.text.toList
  whole : ∀ op : Operator, ¬ op.sep <:+: t.text.toList

theorem Clean.atomic {t : Term} (h : Clean t.text.toList) : t.Atomic := by
  refine ⟨h.tidy, fun op => ?_⟩
  have hwhole : op.operands t.text.toList = [t.text.toList] := by
    simpa using Operator.operands_of_inert (Or.inl rfl) (h.inert op) (Or.inl rfl)
  rwa [Operator.operands_eq_cut, Operator.cut_eq_singleton_iff h.hasParen_eq] at hwhole

namespace Query

/-- A leaf of what a level was read as is a leaf of what one of its operands was read as. -/
theorem exists_operand_of_parseLevel {descend : List Char → Traced Query} {depth : Nat}
    {s : List Char} {q : Query} {t : Term} (h : (parseLevel descend depth s).result = .ok q)
    (ht : t ∈ q.leaves) :
    ∃ o p, IsOperand o (body s) ∧ (parseOperand descend o).result = .ok p ∧ t ∈ p.leaves := by
  obtain ⟨-, as, rfl, has⟩ := (parseLevel_eq_ok_iff _).1 h
  rw [leaves, leavesList_eq, List.mem_flatMap] at ht
  obtain ⟨r, hr, ht⟩ := ht
  obtain ⟨a, ha, har⟩ := Traced.exists_of_forall₂ has.flip hr
  obtain ⟨os, rfl, hos⟩ := (parseAlternative_eq_ok_iff _).1 har
  rw [leaves, leavesList_eq, List.mem_flatMap] at ht
  obtain ⟨p, hp, ht⟩ := ht
  obtain ⟨o, ho, hop⟩ := Traced.exists_of_forall₂ hos.flip hp
  exact ⟨o, p, ⟨a, ha, ho⟩, hop, ht⟩

/-- Every leaf of a query is an operand of a level in the text that the query was read from. -/
theorem exists_operand_of_mem_leaves {limit levels depth : Nat} {s : List Char} {q : Query}
    {t : Term} (h : (parseWithin limit levels depth s).result = .ok q) (ht : t ∈ q.leaves) :
    ∃ n o, IsLevel n s ∧ IsOperand o n ∧ isBlankText o = false ∧ hasParen o = false ∧
      t.text.toList = trim o := by
  induction levels generalizing depth s q with
  | zero => exact absurd h (by simp)
  | succ levels ih =>
    obtain ⟨o, p, ho, hop, ht⟩ := exists_operand_of_parseLevel h ht
    rcases parseOperand_eq_ok_cases hop with ⟨hne, hparen, rfl⟩ | ⟨c, htrim, hc, hread⟩
    · obtain rfl : t = ⟨String.ofList (trim o)⟩ := by simpa [plainTerm, leaves] using ht
      rw [Paren.hasParen_trim] at hparen
      have hblank : isBlankText o = false :=
        Bool.eq_false_iff.2 fun hblank => hne (Text.trim_eq_nil_iff.2 hblank)
      exact ⟨body s, o, Or.inl rfl, ho, hblank, hparen, String.toList_ofList⟩
    · obtain ⟨n, o', hn, hterm⟩ := ih hread ht
      exact ⟨n, o', .of_group (ho.isGroup htrim hc) hn, hterm⟩

theorem atomic_of_parseWithin {limit levels depth : Nat} {s : List Char} {q : Query}
    (hs : Balanced s) (h : (parseWithin limit levels depth s).result = .ok q) :
    ∀ t ∈ q.leaves, t.Atomic := by
  intro t ht
  obtain ⟨n, o, hn, ho, hblank, hparen, htext⟩ := exists_operand_of_mem_leaves h ht
  constructor
  · rw [htext]
    exact tidy_trim hblank (hn.singleSpaced.part ho.part) hparen
  · rw [htext]
    intro op hsep
    exact ho.not_sep_infix (hn.balanced hs) hparen op (hsep.trans (Text.trim_infix o))

theorem infix_of_mem_leaves {limit levels depth : Nat} {s : List Char} {q : Query} {t : Term}
    (h : (parseWithin limit levels depth s).result = .ok q) (ht : t ∈ q.leaves) :
    t.text.toList <:+: collapse s := by
  obtain ⟨n, o, hn, ho, -, -, htext⟩ := exists_operand_of_mem_leaves h ht
  rw [htext]
  exact ((Text.trim_infix o).trans ho.part).trans hn.part

end Query

/-- There is a clause, every clause has a term, and every term is atomic. -/
structure Dnf.WellFormed (d : Dnf) : Prop where
  ne_nil : d.clauses ≠ []
  filled : d.Filled
  atomic : ∀ t ∈ d.terms, t.Atomic

theorem wellFormed_of_compileWithin {limit : Nat} {e : String} {d : Dnf}
    (h : compileWithin limit e = .ok d) : d.WellFormed := by
  obtain ⟨hs, q, hq, rfl⟩ := compileWithin_eq_ok_iff.1 h
  obtain ⟨-, hproper⟩ := Query.expression_of_parseWithin hq
  refine ⟨?_, Query.filled_dnf hproper, ?_⟩
  · exact fun hnil => Query.size_dnf_ne_zero hproper (by rw [Dnf.size, hnil, List.length_nil])
  · exact fun t ht => Query.atomic_of_parseWithin hs hq t ((Query.mem_terms_dnf hproper).1 ht)

/-- What compiles is well-formed, and each of its terms is a piece of the text, up to spacing. -/
theorem compileWithin_terms {limit : Nat} {e : String} {d : Dnf}
    (h : compileWithin limit e = .ok d) :
    d.WellFormed ∧ ∀ t ∈ d.terms, t.text.toList <:+: collapse e.toList := by
  refine ⟨wellFormed_of_compileWithin h, ?_⟩
  intro t ht
  obtain ⟨-, q, hq, rfl⟩ := compileWithin_eq_ok_iff.1 h
  obtain ⟨-, hproper⟩ := Query.expression_of_parseWithin hq
  exact Query.infix_of_mem_leaves hq ((Query.mem_terms_dnf hproper).1 ht)

/-- Operator words at the ends of terms, and a term that has stood across two lines. -/
theorem compileWithin_terms_operator_words :
    compileWithin 1 "OR AND\t( a AND AND b ) OR new \n york"
        = .ok ⟨[⟨[⟨"a"⟩, ⟨"AND b"⟩, ⟨"OR"⟩]⟩, ⟨[⟨"new york"⟩]⟩]⟩ ∧
      Dnf.WellFormed ⟨[⟨[⟨"a"⟩, ⟨"AND b"⟩, ⟨"OR"⟩]⟩, ⟨[⟨"new york"⟩]⟩]⟩ ∧
      ∀ t ∈ [Term.mk "a", ⟨"AND b"⟩, ⟨"OR"⟩, ⟨"new york"⟩],
        t.text.toList <:+: collapse "OR AND\t( a AND AND b ) OR new \n york".toList := by
  have h : compileWithin 1 "OR AND\t( a AND AND b ) OR new \n york"
      = .ok ⟨[⟨[⟨"a"⟩, ⟨"AND b"⟩, ⟨"OR"⟩]⟩, ⟨[⟨"new york"⟩]⟩]⟩ := by decide +kernel
  exact ⟨h, compileWithin_terms h⟩

end BooleanQuery
