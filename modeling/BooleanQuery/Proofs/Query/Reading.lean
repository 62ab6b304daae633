import BooleanQuery.Compile
import BooleanQuery.Proofs.Log
import BooleanQuery.Proofs.Operator.Operands
import BooleanQuery.Proofs.Paren.Nesting

/-!
# What reading a level can do

A level is read in three steps, and each has here one lemma that says everything the step can do:
an operand is blank, a term, mixed, or a group to descend into (`parseOperand_cases`); an
alternative is the conjunction of its operands; and a level is rejected as blank or is the
disjunction of its alternatives. Each is stated for a reading without notes, and no proof about such
readings looks into the three functions again.

What is true of every operand of a level can be said of `IsOperand` at once, without the two cuts
that find it.

The result of a level depends on its `body` alone (`result_parseWithin_congr`): neither the depth
nor what stands around the body makes a difference.
-/

set_option autoImplicit false

namespace BooleanQuery.Query

open Text (trim collapse isBlankText)
open Paren (Balanced hasParen enclosed? strip nesting)

/-- The text of a level after its enclosure is dropped and its spacing collapsed. -/
def body (s : List Char) : List Char := collapse (strip s)

theorem singleSpaced_body (s : List Char) : Text.SingleSpaced (body s) :=
  Text.singleSpaced_collapse (strip s)

theorem balanced_body {s : List Char} (h : Balanced s) : Balanced (body s) :=
  Paren.balanced_collapse.2 (Paren.balanced_strip h)

theorem nesting_body (s : List Char) : nesting (body s) = nesting (strip s) :=
  Paren.nesting_collapse (strip s)

theorem body_group {c : List Char} (h : Balanced c) : body ('(' :: c ++ [')']) = collapse c := by
  unfold body
  rw [Paren.strip_group h]

theorem body_infix_collapse (s : List Char) : body s <:+: collapse s := by
  rcases Paren.strip_cases s with ⟨c, htrim, -, hstrip⟩ | ⟨-, hstrip⟩
  · obtain ⟨l, r, hs, -, -⟩ := Text.exists_collapse_trim s
    rw [htrim, Text.collapse_group] at hs
    rw [body, hstrip, hs]
    exact ⟨l ++ ['('], [')'] ++ r, by simp⟩
  · rw [body, hstrip]

/-! ## Operands of a level -/

/-- `o` stands in `n` between operators of either kind, or between one and an end. -/
def IsOperand (o n : List Char) : Prop :=
  ∃ a ∈ Operator.or.operands n, o ∈ Operator.and.operands a

namespace IsOperand

variable {o n : List Char}

theorem part (h : IsOperand o n) : o <:+: n := by
  obtain ⟨a, ha, ho⟩ := h
  exact (Operator.infix_of_mem_operands ho).trans (Operator.infix_of_mem_operands ha)

theorem balanced (h : IsOperand o n) (hn : Balanced n) : Balanced o := by
  obtain ⟨a, ha, ho⟩ := h
  exact Operator.balanced_of_mem_operands (Operator.balanced_of_mem_operands hn ha) ho

end IsOperand

/-- A balanced level is nested as deep as its operands are. -/
theorem nesting_le_iff_of_level {s : List Char} (h : Balanced s) {n : Nat} :
    nesting s ≤ n ↔ ∀ o, IsOperand o s → nesting o ≤ n := by
  have halt : ∀ a ∈ Operator.or.operands s,
      (nesting a ≤ n ↔ ∀ o ∈ Operator.and.operands a, nesting o ≤ n) := fun a ha =>
    Operator.nesting_le_iff_operands .and (Operator.balanced_of_mem_operands h ha)
  rw [Operator.nesting_le_iff_operands .or h]
  constructor
  · intro hle o ⟨a, ha, ho⟩
    exact (halt a ha).1 (hle a ha) o ho
  · intro hle a ha
    exact (halt a ha).2 fun o ho => hle o ⟨a, ha, ho⟩

variable (descend : List Char → Traced Query)

/-! ## One step -/

/-- The term that a text without parentheses is read as. -/
def plainTerm (s : List Char) : Query := .term ⟨String.ofList s⟩

theorem parseOperand_eq (s : List Char) :
    parseOperand descend s
      = if trim s = [] then Traced.reject .blank
        else if ¬ hasParen (trim s) then pure (plainTerm (trim s))
        else if enclosed? (trim s) = none then
          Traced.reject (.mixed (String.ofList (trim s)))
        else descend (trim s) := rfl

theorem parseAlternative_eq (s : List Char) :
    parseAlternative descend s
      = (Operator.and.operands s).mapM (parseOperand descend) >>= fun qs => pure (.all qs) := rfl

theorem parseLevel_eq (depth : Nat) (s : List Char) :
    parseLevel descend depth s
      = Traced.record (.reading (String.ofList s) depth) >>= fun _ =>
        if isBlankText (body s) then Traced.reject .blank
        else (Operator.or.operands (body s)).mapM (parseAlternative descend) >>= fun qs =>
          pure (.any qs) := rfl

theorem parseOperand_cases (s : List Char) :
    (trim s = [] ∧ parseOperand descend s = Traced.reject .blank) ∨
    (trim s ≠ [] ∧ hasParen (trim s) = false ∧
      parseOperand descend s = pure (plainTerm (trim s))) ∨
    (hasParen (trim s) = true ∧ enclosed? (trim s) = none ∧
      parseOperand descend s = Traced.reject (.mixed (String.ofList (trim s)))) ∨
    (∃ c, trim s = '(' :: c ++ [')'] ∧ Balanced c ∧
      parseOperand descend s = descend (trim s)) := by
  rw [parseOperand_eq]
  by_cases hnil : trim s = []
  · exact Or.inl ⟨hnil, by simp [hnil]⟩
  · cases hp : hasParen (trim s) with
    | false => exact Or.inr (Or.inl ⟨hnil, rfl, by simp [hnil, plainTerm]⟩)
    | true =>
      cases he : enclosed? (trim s) with
      | none => exact Or.inr (Or.inr (Or.inl ⟨rfl, rfl, by simp [hnil]⟩))
      | some c =>
        obtain ⟨htrim, hc⟩ := Paren.enclosed?_eq_some_iff.1 he
        exact Or.inr (Or.inr (Or.inr ⟨c, htrim, hc, by simp [hnil]⟩))

section

variable {descend}

/-- An operand that is read is a term or a group. -/
theorem parseOperand_eq_ok_cases {s : List Char} {q : Query}
    (h : (parseOperand descend s).result = .ok q) :
    (trim s ≠ [] ∧ hasParen (trim s) = false ∧ q = plainTerm (trim s)) ∨
    (∃ c, trim s = '(' :: c ++ [')'] ∧ Balanced c ∧
      (descend ('(' :: c ++ [')'])).result = .ok q) := by
  rcases parseOperand_cases descend s with
    ⟨-, h'⟩ | ⟨hne, hparen, h'⟩ | ⟨-, -, h'⟩ | ⟨c, htrim, hc, h'⟩
  · exact absurd h (by rw [h']; simp)
  · rw [h'] at h
    exact Or.inl ⟨hne, hparen, (Except.ok.inj h).symm⟩
  · exact absurd h (by rw [h']; simp)
  · rw [h', htrim] at h
    exact Or.inr ⟨c, htrim, hc, h⟩

/-- An operand that is rejected is blank, mixed, or a group. -/
theorem parseOperand_eq_error_cases {s : List Char} {e : Rejection}
    (h : (parseOperand descend s).result = .error e) :
    (trim s = [] ∧ e = .blank) ∨
    (hasParen (trim s) = true ∧ enclosed? (trim s) = none ∧
      e = .mixed (String.ofList (trim s))) ∨
    (∃ c, trim s = '(' :: c ++ [')'] ∧ Balanced c ∧
      (descend ('(' :: c ++ [')'])).result = .error e) := by
  rcases parseOperand_cases descend s with
    ⟨hnil, h'⟩ | ⟨-, -, h'⟩ | ⟨hparen, henc, h'⟩ | ⟨c, htrim, hc, h'⟩
  · rw [h'] at h
    exact Or.inl ⟨hnil, (Except.error.inj h).symm⟩
  · exact absurd h (by rw [h']; simp)
  · rw [h'] at h
    exact Or.inr (Or.inl ⟨hparen, henc, (Except.error.inj h).symm⟩)
  · rw [h', htrim] at h
    exact Or.inr (Or.inr ⟨c, htrim, hc, h⟩)

end

/-- An operand is trimmed before anything else is done with it. -/
theorem parseOperand_congr {s t : List Char} (h : trim s = trim t) :
    parseOperand descend s = parseOperand descend t := by
  rw [parseOperand_eq, parseOperand_eq, h]

theorem parseOperand_group {c : List Char} (h : Balanced c) :
    parseOperand descend ('(' :: c ++ [')']) = descend ('(' :: c ++ [')']) := by
  have htrim := (Text.solid_group c).trim_eq
  have hparen : hasParen ('(' :: c ++ [')']) = true := by simp [hasParen]
  rcases parseOperand_cases descend ('(' :: c ++ [')']) with h' | h' | h' | ⟨-, -, -, h'⟩
  · exact absurd h'.1 (by rw [htrim]; simp)
  · exact absurd h'.2.1 (by rw [htrim, hparen]; simp)
  · exact absurd h'.2.1 (by rw [htrim, Paren.enclosed?_eq_some_iff.2 ⟨rfl, h⟩]; simp)
  · rw [h', htrim]

theorem result_parseAlternative (s : List Char) :
    (parseAlternative descend s).result
      = ((Operator.and.operands s).mapM fun o => (parseOperand descend o).result).map .all := by
  rw [parseAlternative_eq, Traced.result_bind, Traced.result_mapM]
  rfl

theorem result_parseLevel (depth : Nat) (s : List Char) :
    (parseLevel descend depth s).result
      = if isBlankText (body s) then .error .blank
        else ((Operator.or.operands (body s)).mapM
          fun a => (parseAlternative descend a).result).map .any := by
  rw [parseLevel_eq, Traced.result_bind, Traced.result_record]
  show (if isBlankText (body s) then _ else _ : Traced Query).result = _
  split
  · rfl
  · rw [Traced.result_bind, Traced.result_mapM]
    rfl

/-! ## What a level that is read consists of -/

theorem parseAlternative_eq_ok_iff {s : List Char} {q : Query} :
    (parseAlternative descend s).result = .ok q ↔
      ∃ qs, q = .all qs ∧
        List.Forall₂ (fun o q => (parseOperand descend o).result = .ok q)
          (Operator.and.operands s) qs := by
  simp only [result_parseAlternative, ← Traced.mapM_eq_ok_iff]
  cases (Operator.and.operands s).mapM fun o => (parseOperand descend o).result with
  | error e => simp [Except.map]
  | ok qs => simp [Except.map, eq_comm (a := q)]

theorem parseLevel_eq_ok_iff {depth : Nat} {s : List Char} {q : Query} :
    (parseLevel descend depth s).result = .ok q ↔
      isBlankText (body s) = false ∧ ∃ qs, q = .any qs ∧
        List.Forall₂ (fun a q => (parseAlternative descend a).result = .ok q)
          (Operator.or.operands (body s)) qs := by
  simp only [result_parseLevel, ← Traced.mapM_eq_ok_iff]
  cases isBlankText (body s) with
  | true => simp
  | false =>
    cases (Operator.or.operands (body s)).mapM fun a => (parseAlternative descend a).result with
    | error e => simp [Except.map]
    | ok qs => simp [Except.map, eq_comm (a := q)]

/-- In a level that is read every operand is read. -/
theorem exists_of_parseLevel_eq_ok {depth : Nat} {s o : List Char} {q : Query}
    (h : (parseLevel descend depth s).result = .ok q) (ho : IsOperand o (body s)) :
    ∃ p, (parseOperand descend o).result = .ok p := by
  obtain ⟨a, ha, ho⟩ := ho
  obtain ⟨-, qs, -, hqs⟩ := (parseLevel_eq_ok_iff _).1 h
  obtain ⟨_, -, hqa⟩ := Traced.exists_of_forall₂ hqs ha
  obtain ⟨ps, -, hps⟩ := (parseAlternative_eq_ok_iff _).1 hqa
  obtain ⟨p, -, hp⟩ := Traced.exists_of_forall₂ hps ho
  exact ⟨p, hp⟩

/-- A level that is rejected is blank, or has an operand that is rejected. -/
theorem exists_of_parseLevel_eq_error {depth : Nat} {s : List Char} {e : Rejection}
    (h : (parseLevel descend depth s).result = .error e) :
    (isBlankText (body s) = true ∧ e = .blank) ∨
      ∃ o, IsOperand o (body s) ∧ (parseOperand descend o).result = .error e := by
  rw [result_parseLevel] at h
  split at h
  · next hblank => exact Or.inl ⟨hblank, (Except.error.inj h).symm⟩
  · refine Or.inr ?_
    obtain ⟨a, ha, he⟩ := Traced.exists_of_map_mapM_eq_error h
    rw [result_parseAlternative] at he
    obtain ⟨o, ho, he⟩ := Traced.exists_of_map_mapM_eq_error he
    exact ⟨o, ⟨a, ha, ho⟩, he⟩

/-! ## Two ways to descend -/

variable {descend} {descend' : List Char → Traced Query}

theorem result_parseOperand_congr (h : ∀ s, (descend s).result = (descend' s).result)
    (s : List Char) : (parseOperand descend s).result = (parseOperand descend' s).result := by
  rw [parseOperand_eq, parseOperand_eq]
  repeat' split
  all_goals first | rfl | exact h _

/-- The result of a level depends on its body and on the results of descending. -/
theorem result_parseLevel_congr (h : ∀ s, (descend s).result = (descend' s).result)
    (depth depth' : Nat) {s s' : List Char} (hs : body s = body s') :
    (parseLevel descend depth s).result = (parseLevel descend' depth' s').result := by
  have halt : ∀ a, (parseAlternative descend a).result = (parseAlternative descend' a).result := by
    intro a
    rw [result_parseAlternative, result_parseAlternative]
    rw [Traced.mapM_congr (List.forall₂_same.2 fun o _ => result_parseOperand_congr h o)]
  rw [result_parseLevel, result_parseLevel, hs,
    Traced.mapM_congr (List.forall₂_same.2 fun a _ => halt a)]

/-- If descending gives up with one rejection or does the same, so does reading the level. -/
theorem parseLevel_eq_or_error {e : Rejection}
    (h : ∀ s, (descend s).result = .error e ∨ descend' s = descend s) (depth : Nat)
    (s : List Char) :
    (parseLevel descend depth s).result = .error e ∨
      parseLevel descend' depth s = parseLevel descend depth s := by
  have hop : ∀ o, (parseOperand descend o).result = .error e ∨
      parseOperand descend' o = parseOperand descend o := by
    intro o
    rw [parseOperand_eq, parseOperand_eq]
    repeat' split
    all_goals first | exact h _ | exact Or.inr rfl
  have halt : ∀ a, (parseAlternative descend a).result = .error e ∨
      parseAlternative descend' a = parseAlternative descend a := by
    intro a
    rw [parseAlternative_eq, parseAlternative_eq]
    exact Traced.bind_eq_or_error (Traced.mapM_eq_or_error fun o _ => hop o) fun _ => Or.inr rfl
  rw [parseLevel_eq, parseLevel_eq]
  apply Traced.bind_eq_or_error (Or.inr rfl)
  intro _
  split
  · exact Or.inr rfl
  · exact Traced.bind_eq_or_error (Traced.mapM_eq_or_error fun a _ => halt a) fun _ => Or.inr rfl

/-! ## All levels -/

@[simp] theorem parseWithin_zero (limit depth : Nat) (s : List Char) :
    parseWithin limit 0 depth s = Traced.reject (.tooDeep limit) := rfl

theorem parse_eq (limit : Nat) (s : List Char) :
    parse limit s = parseLevel (parseWithin limit limit 1) 0 s := rfl

theorem result_parseWithin_congr (limit levels depth depth' : Nat) {s s' : List Char}
    (hs : body s = body s') :
    (parseWithin limit levels depth s).result = (parseWithin limit levels depth' s').result := by
  induction levels generalizing depth depth' s s' with
  | zero => rfl
  | succ levels ih =>
    exact result_parseLevel_congr (fun t => ih (depth + 1) (depth' + 1) rfl) depth depth' hs

/-- A level is no plain term, not even one that holds nothing else. -/
theorem term?_of_parseWithin {limit levels depth : Nat} {s : List Char} {q : Query}
    (h : (parseWithin limit levels depth s).result = .ok q) : q.term? = none := by
  cases levels with
  | zero => exact absurd h (by simp)
  | succ levels =>
    obtain ⟨-, qs, rfl, -⟩ := (parseLevel_eq_ok_iff _).1 h
    rfl

end BooleanQuery.Query

namespace BooleanQuery

theorem compileTraced_of_balanced (limit : Nat) {e : String} (h : Paren.Balanced e.toList) :
    compileTraced limit e = Query.parse limit e.toList >>= fun q =>
      (Traced.record (.compiled e q.dnf.size) >>= fun _ => pure q.dnf) := by
  unfold compileTraced compileIn
  rw [show Paren.unmatched? e.toList = none from h]
  rfl

theorem compileTraced_of_unmatched (limit : Nat) {e : String} {p : Nat}
    (h : Paren.unmatched? e.toList = some p) :
    compileTraced limit e = Traced.reject (.unbalanced p) := by
  unfold compileTraced compileIn
  rw [h]
  rfl

theorem compileWithin_of_balanced (limit : Nat) {e : String} (h : Paren.Balanced e.toList) :
    compileWithin limit e = (Query.parse limit e.toList).result.map Query.dnf := by
  unfold compileWithin
  rw [compileTraced_of_balanced limit h, Traced.result_bind]
  rfl

theorem compileWithin_of_unmatched (limit : Nat) {e : String} {p : Nat}
    (h : Paren.unmatched? e.toList = some p) :
    compileWithin limit e = .error (.unbalanced p) := by
  rw [compileWithin, compileTraced_of_unmatched limit h]
  rfl

theorem compileWithin_of_not_balanced (limit : Nat) {e : String}
    (h : ¬ Paren.Balanced e.toList) : ∃ p, compileWithin limit e = .error (.unbalanced p) := by
  obtain ⟨p, hp⟩ := Option.ne_none_iff_exists'.1 h
  exact ⟨p, compileWithin_of_unmatched limit hp⟩

theorem compileWithin_eq_ok_iff {limit : Nat} {e : String} {d : Dnf} :
    compileWithin limit e = .ok d ↔
      Paren.Balanced e.toList ∧ ∃ q, (Query.parse limit e.toList).result = .ok q ∧ q.dnf = d := by
  by_cases hb : Paren.Balanced e.toList
  · rw [compileWithin_of_balanced limit hb]
    cases (Query.parse limit e.toList).result with
    | error r => simp [Except.map]
    | ok q => simp [Except.map, hb]
  · obtain ⟨p, hp⟩ := compileWithin_of_not_balanced limit hb
    simp [hp, hb]

/-- A balanced text is rejected by the reading or not at all. -/
theorem compileWithin_eq_error_iff {limit : Nat} {e : String} {r : Rejection}
    (h : Paren.Balanced e.toList) :
    compileWithin limit e = .error r ↔ (Query.parse limit e.toList).result = .error r := by
  rw [compileWithin_of_balanced limit h]
  cases (Query.parse limit e.toList).result with
  | error r => simp [Except.map]
  | ok q => simp [Except.map]

theorem compileWithin_eq_tooDeep_iff {limit l : Nat} {e : String} :
    compileWithin limit e = .error (.tooDeep l) ↔
      Paren.Balanced e.toList ∧ (Query.parse limit e.toList).result = .error (.tooDeep l) := by
  by_cases hb : Paren.Balanced e.toList
  · rw [compileWithin_eq_error_iff hb, and_iff_right hb]
  · obtain ⟨p, hp⟩ := compileWithin_of_not_balanced limit hb
    simp [hp, hb]

end BooleanQuery
