import BooleanQuery.Proofs.Paren.Groups
import BooleanQuery.Proofs.Query.Reading

/-!
# What the log shows

A level is recorded when it is entered, so the log tells in which order the groups of a text are
read. That is the order of their `(`: a group is met when the walk over the operands comes to it,
and all groups inside it are read before the walk goes on. So the records that compiling a text can
make are known in advance, from the parentheses of its body alone (`Query.readings`). A compilation
that succeeds makes all of them, and one that is rejected stops somewhere on the way.

The plan of a level is put together from those of its operands, since cutting a balanced text cuts
no group (`groups_operands`).
-/

set_option autoImplicit false

namespace BooleanQuery

open Text (trim collapse isBlankText SingleSpaced)
open Paren (Balanced Group groups hasParen)

/-- The record that is made when the group is entered. -/
def Paren.Group.reading (g : Group) : LogRecord := .reading (String.ofList g.text) g.level

/-- How many levels a run asks for. It makes a record of each one that it enters, and ends at the
first one that it may not enter. These are the levels that it calls
(`levelsAsked_eq_countP_calls`). -/
def Traced.levelsAsked {α : Type} (x : Traced α) : Nat :=
  x.log.countP (fun r => r.level = .trace) +
    match x.result with
    | .error (.tooDeep _) => 1
    | _ => 0

theorem Traced.Follows.levelsAsked_le {α : Type} {x : Traced α} {plan : List LogRecord}
    (h : x.Follows plan) : x.levelsAsked ≤ plan.length := by
  have hcount := x.log.countP_le_length (p := fun r => r.level = .trace)
  have hlen := h.part.length_le
  unfold levelsAsked
  split
  · next l hdeep =>
    have hshort := h.short l hdeep
    omega
  · omega

theorem Operator.groups_intercalate (op : Operator) {ps : List (List Char)}
    (h : ∀ p ∈ ps, Balanced p) (d : Nat) :
    groups d (op.sep.intercalate ps) = ps.flatMap (groups d) := by
  induction ps with
  | nil => rfl
  | cons p ps ih =>
    have ih := ih fun q hq => h q (by simp [hq])
    cases ps with
    | nil => simp
    | cons q ps =>
      have hsep : groups d op.sep = [] :=
        Paren.groups_of_not_hasParen (Paren.hasParen_eq_false_iff.2 (skeleton_sep op)) d
      rw [List.intercalate_cons_cons, List.append_assoc, (h p (by simp)).groups_append,
        (balanced_sep op).groups_append, hsep, ih, List.nil_append]
      rfl

theorem Operator.groups_operands (op : Operator) {s : List Char} (h : Balanced s) (d : Nat) :
    groups d s = (op.operands s).flatMap (groups d) := by
  rw [← op.groups_intercalate (fun o ho => balanced_of_mem_operands h ho), intercalate_operands]

namespace Query

/-- The records of the groups of a text, when `depth` groups are open in front of it. -/
def readings (depth : Nat) (s : List Char) : List LogRecord :=
  (groups depth s).map Group.reading

theorem length_readings (depth : Nat) (s : List Char) :
    (readings depth s).length = s.count '(' := by
  rw [readings, List.length_map, Paren.length_groups]

theorem level_of_mem_plan {depth d : Nat} {e : String} {s : List Char} {x : LogRecord}
    (h : x ∈ LogRecord.reading e d :: readings depth s) : x.level ≠ .debug := by
  rcases List.mem_cons.1 h with rfl | h
  · simp [LogRecord.level]
  · obtain ⟨g, -, rfl⟩ := List.mem_map.1 h
    simp [Group.reading, LogRecord.level]

theorem readings_operands (op : Operator) {s : List Char} (h : Balanced s) (depth : Nat) :
    readings depth s = (op.operands s).flatMap (readings depth) := by
  unfold readings
  rw [op.groups_operands h, List.map_flatMap]

theorem readings_group {c : List Char} (h : Balanced c) (depth : Nat) :
    readings depth ('(' :: c ++ [')'])
      = .reading (String.ofList ('(' :: c ++ [')'])) (depth + 1) :: readings (depth + 1) c := by
  unfold readings
  rw [h.groups_group]
  rfl

/-! ## One level -/

section Level

variable {descend : List Char → Traced Query} {depth : Nat}
  (hdescend : ∀ c, Balanced c → collapse c = c →
    (descend ('(' :: c ++ [')'])).Follows (readings depth ('(' :: c ++ [')'])))

include hdescend

theorem follows_parseOperand {o : List Char} (ho : Balanced o) (hspaced : SingleSpaced o) :
    (parseOperand descend o).Follows (readings depth o) := by
  rcases parseOperand_cases descend o with
    ⟨-, hread⟩ | ⟨-, hparen, hread⟩ | ⟨-, -, hread⟩ | ⟨c, htrim, hc, hread⟩
  · rw [hread]
    exact Traced.follows_reject (by simp) _
  · have hnone : readings depth o = [] := by
      rw [Paren.hasParen_trim] at hparen
      rw [readings, Paren.groups_of_not_hasParen hparen, List.map_nil]
    rw [hread, hnone]
    exact Traced.follows_pure _
  · rw [hread]
    exact Traced.follows_reject (by simp) _
  · -- the group that is descended into is all that the operand has
    have hgroup : readings depth o = readings depth ('(' :: c ++ [')']) := by
      rw [← htrim, readings, readings, Paren.groups_trim ho]
    have hpart : c <:+: o := (Text.infix_group c).trans (htrim ▸ Text.trim_infix o)
    rw [hread, hgroup, htrim]
    exact hdescend c hc (hspaced.part hpart).collapse_eq

theorem follows_parseAlternative {a : List Char} (ha : Balanced a) (hspaced : SingleSpaced a) :
    (parseAlternative descend a).Follows (readings depth a) := by
  have hrun : ((Operator.and.operands a).mapM (parseOperand descend)).Follows
      (readings depth a) := by
    rw [readings_operands .and ha]
    refine Traced.follows_mapM fun o ho => follows_parseOperand hdescend ?_ ?_
    · exact Operator.balanced_of_mem_operands ha ho
    · exact hspaced.part (Operator.infix_of_mem_operands ho)
  rw [parseAlternative_eq]
  have hall := hrun.bind fun qs => Traced.follows_pure (Query.all qs)
  rwa [List.append_nil] at hall

theorem follows_parseLevel {s : List Char} (hs : Balanced s) :
    (parseLevel descend depth s).Follows
      (.reading (String.ofList s) depth :: readings depth (body s)) := by
  have hbody : Balanced (body s) := balanced_body hs
  rw [parseLevel_eq]
  refine (Traced.follows_record _).bind fun _ => ?_
  split
  · exact Traced.follows_reject (by simp) _
  · have hrun : ((Operator.or.operands (body s)).mapM (parseAlternative descend)).Follows
        (readings depth (body s)) := by
      rw [readings_operands .or hbody]
      refine Traced.follows_mapM fun a ha => follows_parseAlternative hdescend ?_ ?_
      · exact Operator.balanced_of_mem_operands hbody ha
      · exact (singleSpaced_body s).part (Operator.infix_of_mem_operands ha)
    have hall := hrun.bind fun qs => Traced.follows_pure (Query.any qs)
    rwa [List.append_nil] at hall

end Level

/-! ## All levels -/

/-- A reading goes through the groups of the text in the order of their `(`. -/
theorem follows_parseWithin (limit levels depth : Nat) {s : List Char} (hs : Balanced s) :
    (parseWithin limit levels depth s).Follows
      (.reading (String.ofList s) depth :: readings depth (body s)) := by
  induction levels generalizing depth s with
  | zero =>
    exact ⟨List.nil_prefix, fun _ h => absurd h (by simp), fun _ _ => Nat.succ_pos _⟩
  | succ levels ih =>
    refine follows_parseLevel ?_ hs
    intro c hc hspaced
    have hgroup := ih (depth + 1) hc.group
    rwa [body_group hc, hspaced, ← readings_group hc] at hgroup

end Query

/-! ## The whole log -/

section

variable (limit : Nat) {e : String} (hb : Balanced e.toList)

include hb

theorem follows_parse :
    (Query.parse limit e.toList).Follows
      (.reading e 0 :: Query.readings 0 (Query.body e.toList)) := by
  have h := Query.follows_parseWithin limit (limit + 1) 0 hb
  rwa [String.ofList_toList] at h

variable {limit}

theorem log_compileTraced_of_ok {q : Query} (h : (Query.parse limit e.toList).result = .ok q) :
    (compileTraced limit e).log
      = (.reading e 0 :: Query.readings 0 (Query.body e.toList)) ++ [.compiled e q.dnf.size] := by
  rw [compileTraced_of_balanced limit hb, Traced.log_bind_of_ok _ h,
    (follows_parse limit hb).whole q h]
  rfl

theorem log_compileTraced_of_error {r : Rejection}
    (h : (Query.parse limit e.toList).result = .error r) :
    (compileTraced limit e).log = (Query.parse limit e.toList).log := by
  rw [compileTraced_of_balanced limit hb, Traced.log_bind_of_error _ h]

/-- The record of the normal form is of no level, and there are no others than those that the
reading made. -/
theorem levelsAsked_compileTraced :
    (compileTraced limit e).levelsAsked = (Query.parse limit e.toList).levelsAsked := by
  have hresult : (compileTraced limit e).result
      = (Query.parse limit e.toList).result.map Query.dnf := compileWithin_of_balanced limit hb
  unfold Traced.levelsAsked
  rw [hresult]
  cases h : (Query.parse limit e.toList).result with
  | ok q =>
    rw [log_compileTraced_of_ok hb h, (follows_parse limit hb).whole q h, List.countP_append]
    simp [LogRecord.level, Except.map]
  | error r =>
    rw [log_compileTraced_of_error hb h]
    cases r <;> rfl

end

/-- The log of a text that compiles is the text, then its groups in the order of their `(`, and
then the number of clauses. The log of one that is rejected is the beginning of that, without the
last record, and is empty if the text is not balanced. So no text with balanced parentheses has
more levels asked for than it has groups, and one. -/
theorem compileTraced_log (limit : Nat) (e : String) :
    (Balanced e.toList →
      (∀ d, compileWithin limit e = .ok d →
        (compileTraced limit e).log
          = (.reading e 0 :: Query.readings 0 (Query.body e.toList)) ++ [.compiled e d.size]) ∧
      (∀ r, compileWithin limit e = .error r →
        (compileTraced limit e).log <+: .reading e 0 :: Query.readings 0 (Query.body e.toList) ∧
        ∀ x ∈ (compileTraced limit e).log, x.level ≠ .debug) ∧
      (compileTraced limit e).levelsAsked ≤ 1 + (Query.body e.toList).count '(') ∧
    (¬ Balanced e.toList → (compileTraced limit e).log = []) := by
  constructor
  · intro hb
    have hfollows := follows_parse limit hb
    refine ⟨?_, ?_, ?_⟩
    · intro d hd
      obtain ⟨-, q, hq, rfl⟩ := compileWithin_eq_ok_iff.1 hd
      exact log_compileTraced_of_ok hb hq
    · intro r hr
      rw [log_compileTraced_of_error hb ((compileWithin_eq_error_iff hb).1 hr)]
      exact ⟨hfollows.part, fun x hx => Query.level_of_mem_plan (hfollows.part.subset hx)⟩
    · rw [levelsAsked_compileTraced hb]
      have hle := hfollows.levelsAsked_le
      rw [List.length_cons, Query.length_readings] at hle
      omega
  · intro hb
    obtain ⟨p, hp⟩ := Option.ne_none_iff_exists'.1 hb
    rw [compileTraced_of_unmatched limit hp]
    rfl

/-- The groups of a text that compiles, with the pair around it left out; the beginning of them
where an operand is mixed, and where the limit allows the first group and no more; and nothing. -/
theorem compileTraced_log_groups :
    (Balanced " ( a AND\t(b OR (c)) AND ((d))) ".toList ∧
      compileWithin 2 " ( a AND\t(b OR (c)) AND ((d))) "
        = .ok ⟨[⟨[⟨"b"⟩, ⟨"d"⟩, ⟨"a"⟩]⟩, ⟨[⟨"c"⟩, ⟨"d"⟩, ⟨"a"⟩]⟩]⟩ ∧
      (compileTraced 2 " ( a AND\t(b OR (c)) AND ((d))) ").log
        = [.reading " ( a AND\t(b OR (c)) AND ((d))) " 0, .reading "(b OR (c))" 1,
          .reading "(c)" 2, .reading "((d))" 1, .reading "(d)" 2,
          .compiled " ( a AND\t(b OR (c)) AND ((d))) " 2]) ∧
    (Balanced "(a) AND x(y) AND (b)".toList ∧
      compileWithin 9 "(a) AND x(y) AND (b)" = .error (.mixed "x(y)") ∧
      (compileTraced 9 "(a) AND x(y) AND (b)").log
        <+: [.reading "(a) AND x(y) AND (b)" 0, .reading "(a)" 1, .reading "(y)" 1,
          .reading "(b)" 1]) ∧
    (Balanced "(a) OR ((b))".toList ∧ compileWithin 1 "(a) OR ((b))" = .error (.tooDeep 1) ∧
      (compileTraced 1 "(a) OR ((b))").levelsAsked ≤ 4) ∧
    (¬ Balanced "(a))(".toList ∧ (compileTraced 9 "(a))(").log = []) := by
  have h₁ : Balanced " ( a AND\t(b OR (c)) AND ((d))) ".toList := by decide +kernel
  have hok : compileWithin 2 " ( a AND\t(b OR (c)) AND ((d))) "
      = .ok ⟨[⟨[⟨"b"⟩, ⟨"d"⟩, ⟨"a"⟩]⟩, ⟨[⟨"c"⟩, ⟨"d"⟩, ⟨"a"⟩]⟩]⟩ := by decide +kernel
  have hplan₁ : Query.readings 0 (Query.body " ( a AND\t(b OR (c)) AND ((d))) ".toList)
      = [.reading "(b OR (c))" 1, .reading "(c)" 2, .reading "((d))" 1, .reading "(d)" 2] := by
    decide +kernel
  have h₂ : Balanced "(a) AND x(y) AND (b)".toList := by decide +kernel
  have hmixed : compileWithin 9 "(a) AND x(y) AND (b)" = .error (.mixed "x(y)") := by
    decide +kernel
  have hplan₂ : Query.readings 0 (Query.body "(a) AND x(y) AND (b)".toList)
      = [.reading "(a)" 1, .reading "(y)" 1, .reading "(b)" 1] := by decide +kernel
  have h₃ : Balanced "(a) OR ((b))".toList := by decide +kernel
  have hdeep : compileWithin 1 "(a) OR ((b))" = .error (.tooDeep 1) := by decide +kernel
  have hcount : (Query.body "(a) OR ((b))".toList).count '(' = 3 := by decide +kernel
  have h₄ : ¬ Balanced "(a))(".toList := by decide +kernel
  obtain ⟨hwhole, -, -⟩ := (compileTraced_log 2 " ( a AND\t(b OR (c)) AND ((d))) ").1 h₁
  obtain ⟨-, hpart, -⟩ := (compileTraced_log 9 "(a) AND x(y) AND (b)").1 h₂
  obtain ⟨-, -, hasked⟩ := (compileTraced_log 1 "(a) OR ((b))").1 h₃
  refine ⟨⟨h₁, hok, ?_⟩, ⟨h₂, hmixed, ?_⟩, ⟨h₃, hdeep, ?_⟩, h₄,
    (compileTraced_log 9 "(a))(").2 h₄⟩
  · rw [hwhole _ hok, hplan₁]
    rfl
  · rw [← hplan₂]
    exact (hpart _ hmixed).1
  · rwa [hcount] at hasked

end BooleanQuery
