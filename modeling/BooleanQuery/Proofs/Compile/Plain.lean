import BooleanQuery.Proofs.Dnf.Written
import BooleanQuery.Proofs.Operator.Separates
import BooleanQuery.Proofs.Query.NormalForm
import BooleanQuery.Proofs.Query.Reading

/-!
# Texts without parentheses

A text without parentheses is one level, and there are two things that can happen to it: it is
rejected because an operand is blank, or each of its operands is a term
(`compileWithin_plain_cases`). No limit plays a part in it, and neither does any word of the
text, so that a text which has no blank at either end always compiles.

What such a text compiles to is written as the text itself, trimmed and single-spaced, and that
compiles to the same normal form again. So among these texts writing undoes compiling, whatever
operator words they are made of.
-/

set_option autoImplicit false

namespace BooleanQuery

open Text (trim collapse isBlankText Solid SingleSpaced)
open Paren (hasParen)

/-! ## Tidy texts -/

/-- A text without parentheses that has one space wherever it has blanks, and none at the ends. -/
structure Tidy (s : List Char) : Prop where
  solid : Solid s
  spaced : SingleSpaced s
  hasParen_eq : hasParen s = false

theorem Clean.tidy {s : List Char} (h : Clean s) : Tidy s :=
  ⟨h.solid, Text.collapse_eq_self_iff.1 h.collapse_eq, h.hasParen_eq⟩

theorem tidy_trim {s : List Char} (hblank : isBlankText s = false) (hspaced : SingleSpaced s)
    (hparen : hasParen s = false) : Tidy (trim s) :=
  ⟨Text.solid_trim_of_not_isBlankText hblank, hspaced.part (Text.trim_infix s),
    by rwa [Paren.hasParen_trim]⟩

theorem Tidy.operand {op : Operator} {s o : List Char} (h : Tidy s) (ho : o ∈ op.operands s) :
    Tidy o := by
  have hinfix := Operator.infix_of_mem_operands ho
  exact ⟨Operator.solid_of_mem_operands h.spaced h.solid o ho, h.spaced.part hinfix,
    Paren.hasParen_of_infix h.hasParen_eq hinfix⟩

/-- What an operator joins is tidy if its parts are. -/
theorem Tidy.join {op : Operator} {ps : List (List Char)} (hne : ps ≠ [])
    (h : ∀ p ∈ ps, Tidy p) : Tidy (op.sep.intercalate ps) := by
  have hsolid : ∀ p ∈ ps, Solid p := fun p hp => (h p hp).solid
  have hcollapse : ps.map collapse = ps := by
    rw [List.map_congr_left fun p hp => (h p hp).spaced.collapse_eq, List.map_id']
  refine ⟨Operator.solid_intercalate hne hsolid, ?_, ?_⟩
  · rw [← Text.collapse_eq_self_iff, Operator.collapse_intercalate hsolid, hcollapse]
  · exact Operator.hasParen_intercalate fun p hp => (h p hp).hasParen_eq

/-! ## The operands of a text as terms -/

/-- The terms between the `AND`s of a text. -/
def Clause.ofPlain (s : List Char) : Clause :=
  ⟨(Operator.and.operands s).map fun o => ⟨String.ofList (trim o)⟩⟩

/-- The clauses between the `OR`s of a text. -/
def Dnf.ofPlain (s : List Char) : Dnf := ⟨(Operator.or.operands s).map Clause.ofPlain⟩

/-- No operand of the text is blank. -/
def Complete (s : List Char) : Prop :=
  ∀ a ∈ Operator.or.operands s, ∀ o ∈ Operator.and.operands a, isBlankText o = false

theorem Complete.alternative {s a : List Char} (h : Complete s)
    (ha : a ∈ Operator.or.operands s) : isBlankText a = false := by
  obtain ⟨o, ho⟩ := List.exists_mem_of_ne_nil _ (Operator.operands_ne_nil .and a)
  exact Text.not_isBlankText_of_infix (h a ha o ho) (Operator.infix_of_mem_operands ho)

theorem Complete.not_isBlankText {s : List Char} (h : Complete s) : isBlankText s = false := by
  obtain ⟨a, ha⟩ := List.exists_mem_of_ne_nil _ (Operator.operands_ne_nil .or s)
  exact Text.not_isBlankText_of_infix (h.alternative ha) (Operator.infix_of_mem_operands ha)

/-! ## Reading it -/

namespace Query

variable {descend : List Char → Traced Query} {depth : Nat} {s : List Char}

/-- The query that the operands of a text make up. -/
def ofPlain (s : List Char) : Query :=
  .any ((Operator.or.operands s).map fun a =>
    .all ((Operator.and.operands a).map fun o => plainTerm (trim o)))

theorem factors_plainTerm (os : List (List Char)) :
    factors (os.map fun o => plainTerm (trim o))
      = [Dnf.ofTerms (os.map fun o => ⟨String.ofList (trim o)⟩)] := by
  have hcompound : compoundDnfs (os.map fun o => plainTerm (trim o)) = [] := by
    rw [List.eq_nil_iff_forall_not_mem]
    intro d hd
    obtain ⟨q, hq, hnone, -⟩ := mem_compoundDnfs.1 hd
    obtain ⟨o, -, rfl⟩ := List.mem_map.1 hq
    exact absurd hnone (by simp [plainTerm, term?])
  have hterms : (os.map fun o => plainTerm (trim o)).filterMap term?
      = os.map fun o => ⟨String.ofList (trim o)⟩ := by
    rw [List.filterMap_map]
    exact congrFun (List.filterMap_eq_map ..) os
  rw [factors, hcompound, hterms, List.nil_append]

theorem dnf_ofPlain (s : List Char) : (ofPlain s).dnf = Dnf.ofPlain s := by
  have halt : ∀ a, dnf (.all ((Operator.and.operands a).map fun o => plainTerm (trim o)))
      = ⟨[Clause.ofPlain a]⟩ := fun a => by
    rw [dnf_all, factors_plainTerm, Dnf.all_singleton, Dnf.ofTerms, Clause.ofPlain]
  rw [ofPlain, dnf_any, List.map_map, Dnf.ofPlain, Dnf.any, List.flatMap_map]
  simp only [Function.comp_apply, halt]
  exact congrArg _ List.map_eq_flatMap.symm

theorem parseOperand_plain (descend : List Char → Traced Query) {o : List Char}
    (hparen : hasParen o = false) :
    (isBlankText o = true ∧ parseOperand descend o = Traced.reject .blank) ∨
      (isBlankText o = false ∧ parseOperand descend o = pure (plainTerm (trim o))) := by
  rw [← Paren.hasParen_trim] at hparen
  rcases parseOperand_cases descend o with
    ⟨hnil, h⟩ | ⟨hne, -, h⟩ | ⟨hp, -, -⟩ | ⟨c, htrim, -, -⟩
  · exact Or.inl ⟨Text.trim_eq_nil_iff.1 hnil, h⟩
  · exact Or.inr ⟨Bool.eq_false_iff.2 fun hb => hne (Text.trim_eq_nil_iff.2 hb), h⟩
  · exact absurd hparen (by simp [hp])
  · exact absurd hparen (by simp [htrim, hasParen])

theorem result_parseLevel_of_complete (hparen : hasParen (body s) = false)
    (h : Complete (body s)) : (parseLevel descend depth s).result = .ok (ofPlain (body s)) := by
  refine (parseLevel_eq_ok_iff _).2 ⟨h.not_isBlankText, _, rfl, ?_⟩
  rw [List.forall₂_map_right_iff, List.forall₂_same]
  intro a ha
  refine (parseAlternative_eq_ok_iff _).2 ⟨_, rfl, ?_⟩
  rw [List.forall₂_map_right_iff, List.forall₂_same]
  intro o ho
  have hop : IsOperand o (body s) := ⟨a, ha, ho⟩
  rcases parseOperand_plain descend (Paren.hasParen_of_infix hparen hop.part) with
    ⟨hblank, -⟩ | ⟨-, h'⟩
  · exact absurd hblank (by simp [h a ha o ho])
  · rw [h']
    rfl

theorem complete_of_parseLevel {q : Query} (hparen : hasParen (body s) = false)
    (h : (parseLevel descend depth s).result = .ok q) : Complete (body s) := by
  intro a ha o ho
  have hop : IsOperand o (body s) := ⟨a, ha, ho⟩
  obtain ⟨p, hp⟩ := exists_of_parseLevel_eq_ok _ h hop
  rcases parseOperand_plain descend (Paren.hasParen_of_infix hparen hop.part) with
    ⟨-, h'⟩ | ⟨hblank, -⟩
  · exact absurd hp (by rw [h']; simp)
  · exact hblank

theorem result_parseLevel_of_not_complete (hparen : hasParen (body s) = false)
    (h : ¬ Complete (body s)) : (parseLevel descend depth s).result = .error .blank := by
  cases hr : (parseLevel descend depth s).result with
  | ok q => exact absurd (complete_of_parseLevel hparen hr) h
  | error e =>
    rcases exists_of_parseLevel_eq_error _ hr with ⟨-, rfl⟩ | ⟨o, ho, he⟩
    · rfl
    · -- a term is never rejected, and a blank operand always as such
      rcases parseOperand_plain descend (Paren.hasParen_of_infix hparen ho.part) with
        ⟨-, h'⟩ | ⟨-, h'⟩
      · rw [h'] at he
        exact congrArg _ (Except.error.inj he).symm
      · exact absurd he (by rw [h']; simp)

end Query

theorem body_of_not_hasParen {s : List Char} (h : hasParen s = false) :
    Query.body s = collapse s := by
  rcases Paren.strip_cases s with ⟨c, htrim, -, -⟩ | ⟨-, hstrip⟩
  · rw [← Paren.hasParen_trim, htrim] at h
    exact absurd h (by simp [hasParen])
  · rw [Query.body, hstrip]

/-- What becomes of a text without parentheses. -/
theorem compileWithin_plain_cases (limit : Nat) {e : String} (h : hasParen e.toList = false) :
    (Complete (collapse e.toList) ∧
      compileWithin limit e = .ok (Dnf.ofPlain (collapse e.toList))) ∨
    (¬ Complete (collapse e.toList) ∧ compileWithin limit e = .error .blank) := by
  have hbody := body_of_not_hasParen h
  have hparen : hasParen (Query.body e.toList) = false := by
    rw [hbody, Paren.hasParen_collapse, h]
  rw [compileWithin_of_balanced limit (Paren.balanced_of_not_hasParen h), Query.parse_eq, ← hbody]
  by_cases hc : Complete (Query.body e.toList)
  · refine Or.inl ⟨hc, ?_⟩
    rw [Query.result_parseLevel_of_complete hparen hc, ← Query.dnf_ofPlain]
    rfl
  · refine Or.inr ⟨hc, ?_⟩
    rw [Query.result_parseLevel_of_not_complete hparen hc]
    rfl

/-! ## Trimming it -/

/-- A text has the same terms when it is trimmed. -/
theorem Complete.trim {s : List Char} (h : Complete s) (hspaced : SingleSpaced s) :
    Complete (trim s) ∧ Dnf.ofPlain (trim s) = Dnf.ofPlain s := by
  have hor : Operator.or.operands (Text.trim s) = (Operator.or.operands s).map Text.trim :=
    Operator.operands_trim hspaced fun a ha => h.alternative ha
  have hand : ∀ a ∈ Operator.or.operands s,
      Operator.and.operands (Text.trim a) = (Operator.and.operands a).map Text.trim := by
    intro a ha
    exact Operator.operands_trim (hspaced.part (Operator.infix_of_mem_operands ha)) (h a ha)
  have hsolid : ∀ a ∈ Operator.or.operands s, ∀ o ∈ Operator.and.operands a,
      Solid (Text.trim o) := fun a ha o ho => Text.solid_trim_of_not_isBlankText (h a ha o ho)
  constructor
  · unfold Complete
    rw [hor, List.forall_mem_map]
    intro a ha
    rw [hand a ha, List.forall_mem_map]
    exact fun o ho => (hsolid a ha o ho).not_isBlankText
  · have hclause : ∀ a ∈ Operator.or.operands s,
        Clause.ofPlain (Text.trim a) = Clause.ofPlain a := by
      intro a ha
      rw [Clause.ofPlain, hand a ha, List.map_map, Clause.ofPlain]
      refine congrArg Clause.mk (List.map_congr_left fun o ho => ?_)
      rw [Function.comp_apply, (hsolid a ha o ho).trim_eq]
    rw [Dnf.ofPlain, hor, List.map_map, Dnf.ofPlain]
    exact congrArg Dnf.mk (List.map_congr_left hclause)

/-! ## Tidy texts are written as they are -/

theorem Tidy.complete {s : List Char} (h : Tidy s) : Complete s :=
  fun _ ha _ ho => ((h.operand ha).operand ho).solid.not_isBlankText

theorem Tidy.compileWithin {e : String} (h : Tidy e.toList) (limit : Nat) :
    compileWithin limit e = .ok (Dnf.ofPlain e.toList) := by
  have hcases := compileWithin_plain_cases limit h.hasParen_eq
  rw [h.spaced.collapse_eq] at hcases
  rcases hcases with ⟨-, hok⟩ | ⟨hnot, -⟩
  · exact hok
  · exact absurd h.complete hnot

theorem Tidy.map_ofPlain {s : List Char} (h : Tidy s) :
    (Clause.ofPlain s).terms.map (fun t => t.text.toList) = Operator.and.operands s := by
  have htrim : ∀ o ∈ Operator.and.operands s, trim o = o := fun o ho => (h.operand ho).solid.trim_eq
  rw [Clause.ofPlain, List.map_map]
  simp only [Function.comp_def, String.toList_ofList]
  rw [List.map_congr_left htrim, List.map_id']

theorem Tidy.written_clause {s : List Char} (h : Tidy s) :
    (Clause.ofPlain s).written.toList = s := by
  rw [Clause.toList_written, h.map_ofPlain, Operator.intercalate_operands]

theorem Tidy.map_written_ofPlain {s : List Char} (h : Tidy s) :
    (Dnf.ofPlain s).clauses.map (fun c => c.written.toList) = Operator.or.operands s := by
  have hwritten : ∀ a ∈ Operator.or.operands s, (Clause.ofPlain a).written.toList = a :=
    fun a ha => (h.operand ha).written_clause
  rw [Dnf.ofPlain, List.map_map]
  simp only [Function.comp_def]
  rw [List.map_congr_left hwritten, List.map_id']

theorem Tidy.written_ofPlain {s : List Char} (h : Tidy s) :
    (Dnf.ofPlain s).written.toList = s := by
  rw [Dnf.toList_written, h.map_written_ofPlain, Operator.intercalate_operands]

/-- The clauses and terms of a tidy text are the ones whose texts the cuts find in it. -/
theorem Tidy.ofPlain_eq_iff {s : List Char} (h : Tidy s) {d : Dnf} :
    Dnf.ofPlain s = d ↔
      Operator.or.operands s = d.clauses.map (fun c => c.written.toList) ∧
      ∀ c ∈ d.clauses,
        Operator.and.operands c.written.toList = c.terms.map fun t => t.text.toList := by
  constructor
  · rintro rfl
    refine ⟨h.map_written_ofPlain.symm, ?_⟩
    simp only [Dnf.ofPlain, List.forall_mem_map]
    intro a ha
    rw [(h.operand ha).written_clause, (h.operand ha).map_ofPlain]
  · intro ⟨hor, hand⟩
    have hclause : ∀ c ∈ d.clauses, Clause.ofPlain c.written.toList = c := by
      intro c hc
      have htidy : Tidy c.written.toList :=
        h.operand (hor ▸ List.mem_map_of_mem hc)
      have hterm : ∀ t ∈ c.terms, (⟨String.ofList (trim t.text.toList)⟩ : Term) = t := by
        intro t ht
        have hoperand : t.text.toList ∈ Operator.and.operands c.written.toList :=
          hand c hc ▸ List.mem_map_of_mem ht
        rw [(htidy.operand hoperand).solid.trim_eq, String.ofList_toList]
      rw [Clause.ofPlain, hand c hc, List.map_map]
      simp only [Function.comp_def]
      rw [List.map_congr_left hterm, List.map_id']
    rw [Dnf.ofPlain, hor, List.map_map]
    simp only [Function.comp_def]
    rw [List.map_congr_left hclause, List.map_id']

/-- A text without parentheses is rejected as blank or has a normal form that is written as the
text itself, trimmed and single-spaced, and that the written form has again; the limit makes no
difference to any of it. A text with no blank at either end is not rejected, whatever its words. -/
theorem compileWithin_of_not_hasParen (e : String) (h : hasParen e.toList = false) :
    ((∀ limit, compileWithin limit e = .error .blank) ∨
      ∃ d, (∀ limit, compileWithin limit e = .ok d) ∧
        d.written.toList = trim (collapse e.toList) ∧
        ∀ limit, compileWithin limit d.written = .ok d) ∧
    (Solid e.toList → ∃ d, ∀ limit, compileWithin limit e = .ok d) := by
  have hspaced := Text.singleSpaced_collapse e.toList
  have hparen : hasParen (collapse e.toList) = false := by rw [Paren.hasParen_collapse, h]
  constructor
  · by_cases hc : Complete (collapse e.toList)
    · obtain ⟨-, htrim⟩ := hc.trim hspaced
      have htidy := tidy_trim hc.not_isBlankText hspaced hparen
      have hwritten : (Dnf.ofPlain (collapse e.toList)).written.toList
          = trim (collapse e.toList) := by rw [← htrim, htidy.written_ofPlain]
      refine Or.inr ⟨Dnf.ofPlain (collapse e.toList), ?_, hwritten, ?_⟩
      · exact fun limit => ((compileWithin_plain_cases limit h).resolve_right fun hn => hn.1 hc).2
      · intro limit
        rw [← hwritten] at htidy
        rw [htidy.compileWithin limit, hwritten, htrim]
    · exact Or.inl fun limit =>
        ((compileWithin_plain_cases limit h).resolve_left fun hok => hc hok.1).2
  · intro hsolid
    have htidy : Tidy (collapse e.toList) := ⟨hsolid.collapse, hspaced, hparen⟩
    refine ⟨Dnf.ofPlain (collapse e.toList), fun limit => ?_⟩
    exact ((compileWithin_plain_cases limit h).resolve_right fun hn => hn.1 htidy.complete).2

/-- Of two operators that share a space, the first one is read and the other is part of a term. -/
theorem compileWithin_of_not_hasParen_operator_words :
    hasParen "OR OR\tOR AND  AND".toList = false ∧ Solid "OR OR\tOR AND  AND".toList ∧
      ∃ d, (∀ limit, compileWithin limit "OR OR\tOR AND  AND" = .ok d) ∧
        d.written.toList = "OR OR OR AND AND".toList ∧
        ∀ limit, compileWithin limit d.written = .ok d := by
  have h : hasParen "OR OR\tOR AND  AND".toList = false := by decide +kernel
  have hsolid : Solid "OR OR\tOR AND  AND".toList :=
    ⟨⟨'O', _, rfl, by decide +kernel⟩, ⟨"OR OR\tOR AND  AN".toList, 'D', rfl, by decide +kernel⟩⟩
  obtain ⟨hcases, hok⟩ := compileWithin_of_not_hasParen _ h
  obtain ⟨d, hd⟩ := hok hsolid
  refine ⟨h, hsolid, ?_⟩
  rcases hcases with hblank | hcompiled
  · exact absurd ((hd 0).symm.trans (hblank 0)) (by simp)
  · exact hcompiled

end BooleanQuery
