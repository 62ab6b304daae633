import BooleanQuery.Proofs.Query.Joined

/-!
# Every way to write a query

A query can be written in many ways. Where it stands decides whether it needs parentheses: an
operand of `AND` needs them unless it is a term, an operand of `OR` needs them if it is a
disjunction, and no query minds having more than it needs. There may be space inside a pair, and
wherever there is a space there may be any run of blanks instead.

`Layout` is the first of these two freedoms and `Respaced` the second. Together they are the texts
that a query may be written as (`Renders`), and all of these compile to a normal form that means
what the query means, provided that its terms can be told apart from operators and the limit
allows for the nesting of the text.
-/

set_option autoImplicit false

namespace BooleanQuery

open Text (collapse isBlankText OptSpace Solid)
open Paren (Balanced nesting)

/-! ## Layouts -/

inductive Place where
  | operand
  | alternative
  /-- Between parentheses, or all there is. -/
  | expression
deriving DecidableEq

inductive Layout : Place → Query → List Char → Prop
  | term {p : Place} (t : Term) : Layout p (.term t) t.text.toList
  | group {p : Place} {q : Query} {l s r : List Char} (hl : OptSpace l)
      (h : Layout .expression q s) (hr : OptSpace r) : Layout p q ('(' :: (l ++ s ++ r) ++ [')'])
  | all {p : Place} {qs : List Query} {ss : List (List Char)} (hp : p ≠ .operand) (hne : qs ≠ [])
      (h : List.Forall₂ (Layout .operand) qs ss) :
      Layout p (.all qs) (Operator.and.sep.intercalate ss)
  | any {qs : List Query} {ss : List (List Char)} (hne : qs ≠ [])
      (h : List.Forall₂ (Layout .alternative) qs ss) :
      Layout .expression (.any qs) (Operator.or.sep.intercalate ss)

/-- What is to be proved of a layout may be assumed of the layouts of its operands. -/
@[elab_as_elim]
theorem Layout.inductParts {motive : Place → Query → List Char → Prop}
    (term : ∀ p t, motive p (.term t) t.text.toList)
    (group : ∀ p q l s r, OptSpace l → OptSpace r → motive .expression q s →
      motive p q ('(' :: (l ++ s ++ r) ++ [')']))
    (all : ∀ p qs ss, qs ≠ [] → List.Forall₂ (motive .operand) qs ss → p ≠ .operand →
      motive p (.all qs) (Operator.and.sep.intercalate ss))
    (any : ∀ qs ss, qs ≠ [] → List.Forall₂ (motive .alternative) qs ss →
      motive .expression (.any qs) (Operator.or.sep.intercalate ss))
    {p : Place} {q : Query} {s : List Char} (h : Layout p q s) : motive p q s :=
  @Layout.rec (fun p q s _ => motive p q s)
    (fun qs ss _ => List.Forall₂ (motive .operand) qs ss)
    (fun qs ss _ => List.Forall₂ (motive .alternative) qs ss)
    (fun {p} t => term p t)
    (fun {p q l s r} hl _ hr ih => group p q l s r hl hr ih)
    (fun {p qs ss} hp hne _ ih => all p qs ss hne ih hp)
    (fun {qs ss} hne _ ih => any qs ss hne ih)
    .nil (fun _ _ ih ihs => .cons ih ihs) .nil (fun _ _ ih ihs => .cons ih ihs) p q s h

/-! ## Spacing -/

/-- Every space may have become a run of blanks. -/
inductive Respaced : List Char → List Char → Prop
  | nil : Respaced [] []
  | keep (c : Char) {s t : List Char} (h : Respaced s t) : Respaced (c :: s) (c :: t)
  | run {b s t : List Char} (hb : isBlankText b = true) (hne : b ≠ []) (h : Respaced s t) :
      Respaced (' ' :: s) (b ++ t)

theorem Respaced.refl (s : List Char) : Respaced s s := by
  induction s with
  | nil => exact .nil
  | cons c s ih => exact .keep c ih

theorem Respaced.collapse_eq {s t : List Char} (h : Respaced s t) : collapse t = collapse s := by
  induction h with
  | nil => rfl
  | keep c h ih => rw [Text.collapse_cons, Text.collapse_cons, ih]
  | run hb hne h ih => rw [Text.collapse_blank_append hb hne, ih, Text.collapse_cons]

/-! ## What a layout is read as -/

namespace Query

def Same (q q' : Query) : Prop := ∀ v, q.holds v = q'.holds v

theorem same_all {qs qs' : List Query} (h : List.Forall₂ Same qs qs') :
    Same (.all qs) (.all qs') := by
  intro v
  rw [holds, holds, allHold_eq, allHold_eq]
  induction h with
  | nil => rfl
  | cons hq _ ih => rw [List.all_cons, List.all_cons, hq v, ih]

theorem same_any {qs qs' : List Query} (h : List.Forall₂ Same qs qs') :
    Same (.any qs) (.any qs') := by
  intro v
  rw [holds, holds, anyHolds_eq, anyHolds_eq]
  induction h with
  | nil => rfl
  | cons hq _ ih => rw [List.any_cons, List.any_cons, hq v, ih]

theorem same_all_singleton (q : Query) : Same q (.all [q]) := by
  intro v
  simp [holds, allHold]

theorem same_any_singleton (q : Query) : Same q (.any [q]) := by
  intro v
  simp [holds, anyHolds]

/-- As an operand the text is read as a query that means `q`, if there are levels enough. -/
structure ReadsOperand (q : Query) (o : List Char) : Prop where
  sealed : Sealed o
  reads : ∀ limit levels depth, nesting o ≤ levels →
    ∃ q', (parseOperand (parseWithin limit levels depth) o).result = .ok q' ∧ Same q q'

/-- The text is operands that are read as queries, and `q` means the conjunction of these. -/
def ReadsAlternative (q : Query) (a : List Char) : Prop :=
  ∃ qs os, os ≠ [] ∧ a = Operator.and.sep.intercalate os ∧ List.Forall₂ ReadsOperand qs os ∧
    Same q (.all qs)

def ReadsExpression (q : Query) (s : List Char) : Prop :=
  ∃ qss oss, SealedLevel oss ∧ s = levelText oss ∧
    List.Forall₂ (List.Forall₂ ReadsOperand) qss oss ∧ Same q (.any (qss.map .all))

theorem ReadsOperand.alternative {q : Query} {o : List Char} (h : ReadsOperand q o) :
    ReadsAlternative q o := by
  refine ⟨[q], [o], by simp, ?_, .cons h .nil, same_all_singleton q⟩
  rw [List.intercalate_singleton]

theorem ReadsAlternative.all {qs : List Query} {os : List (List Char)} (hne : os ≠ [])
    (h : List.Forall₂ ReadsOperand qs os) :
    ReadsAlternative (.all qs) (Operator.and.sep.intercalate os) :=
  ⟨qs, os, hne, rfl, h, fun _ => rfl⟩

theorem sealed_of_reads {qs : List Query} {os : List (List Char)}
    (h : List.Forall₂ ReadsOperand qs os) : ∀ o ∈ os, Sealed o := by
  induction h with
  | nil => simp
  | cons ho _ ih => simpa using ⟨ho.sealed, ih⟩

theorem exists_level {qs : List Query} {as : List (List Char)}
    (h : List.Forall₂ ReadsAlternative qs as) :
    ∃ (qss : List (List Query)) (oss : List (List (List Char))),
      as = oss.map Operator.and.sep.intercalate ∧
      (∀ os ∈ oss, os ≠ [] ∧ ∀ o ∈ os, Sealed o) ∧
      List.Forall₂ (List.Forall₂ ReadsOperand) qss oss ∧ List.Forall₂ Same qs (qss.map .all) := by
  induction h with
  | nil => exact ⟨[], [], rfl, by simp, .nil, .nil⟩
  | cons ha _ ih =>
    obtain ⟨qss, oss, rfl, hoss, hreads, hsame⟩ := ih
    obtain ⟨ps, os, hos, rfl, hps, hq⟩ := ha
    -- the operands of this alternative are a list of their own in front of the others
    refine ⟨ps :: qss, os :: oss, rfl, ?_, .cons hps hreads, .cons hq hsame⟩
    intro os' hos'
    rcases List.mem_cons.1 hos' with rfl | hos'
    · exact ⟨hos, sealed_of_reads hps⟩
    · exact hoss os' hos'

theorem ReadsExpression.any {qs : List Query} {as : List (List Char)} (hne : as ≠ [])
    (h : List.Forall₂ ReadsAlternative qs as) :
    ReadsExpression (.any qs) (Operator.or.sep.intercalate as) := by
  obtain ⟨qss, oss, rfl, hoss, hreads, hsame⟩ := exists_level h
  exact ⟨qss, oss, ⟨by simpa using hne, hoss⟩, rfl, hreads, same_any hsame⟩

theorem ReadsAlternative.expression {q : Query} {a : List Char} (h : ReadsAlternative q a) :
    ReadsExpression q a := by
  obtain ⟨qss, oss, hoss, ha, hreads, hsame⟩ :=
    ReadsExpression.any (List.cons_ne_nil a []) (.cons h .nil)
  rw [List.intercalate_singleton] at ha
  exact ⟨qss, oss, hoss, ha, hreads, fun v => (same_any_singleton q v).trans (hsame v)⟩

theorem ReadsExpression.solid {q : Query} {s : List Char} (h : ReadsExpression q s) : Solid s := by
  obtain ⟨_, _, hoss, rfl, _, _⟩ := h
  exact solid_levelText hoss

theorem ReadsExpression.balanced {q : Query} {s : List Char} (h : ReadsExpression q s) :
    Balanced s := by
  obtain ⟨_, _, hoss, rfl, _, _⟩ := h
  exact balanced_levelText hoss

theorem ReadsExpression.collapse_eq {q : Query} {s l r : List Char} (h : ReadsExpression q s)
    (hl : OptSpace l) (hr : OptSpace r) : collapse (l ++ s ++ r) = l ++ s ++ r := by
  have hs : collapse s = s := by
    obtain ⟨_, _, hoss, rfl, _, _⟩ := h
    exact collapse_levelText hoss
  rw [h.solid.collapse_append_append, hl.singleSpaced.collapse_eq, hs, hr.singleSpaced.collapse_eq]

/-! ## Levels and groups -/

theorem exists_mapM_operands {qs : List Query} {os : List (List Char)}
    (h : List.Forall₂ ReadsOperand qs os) (limit depth : Nat) {levels : Nat}
    (hnest : ∀ o ∈ os, nesting o ≤ levels) :
    ∃ q', ((os.mapM fun o => (parseOperand (parseWithin limit levels depth) o).result).map .all)
      = .ok q' ∧ Same (.all qs) q' := by
  have hstep : List.Forall₂ (fun q o => ∃ q',
      (parseOperand (parseWithin limit levels depth) o).result = .ok q' ∧ Same q q') qs os := by
    induction h with
    | nil => exact .nil
    | cons ho _ ih =>
      refine .cons (ho.reads limit levels depth (hnest _ (by simp))) (ih ?_)
      intro o ho'
      exact hnest o (by simp [ho'])
  obtain ⟨qs', hqs', hsame⟩ := Traced.exists_mapM_eq_ok hstep
  exact ⟨.all qs', by rw [hqs']; rfl, same_all hsame⟩

/-- With levels enough, a level is read as a query that means what its text does. -/
theorem ReadsExpression.parseLevel {q : Query} {t : List Char} (h : ReadsExpression q t)
    (limit depth depth' : Nat) {levels : Nat} (hlevels : nesting t ≤ levels) {s l r : List Char}
    (hl : OptSpace l) (hr : OptSpace r) (hbody : body s = l ++ t ++ r) :
    ∃ q', (parseLevel (parseWithin limit levels depth) depth' s).result = .ok q' ∧
      Same q q' := by
  obtain ⟨qss, oss, hoss, rfl, hreads, hsame⟩ := h
  have hnest := (nesting_levelText_le_iff hoss).1 hlevels
  have hstep : List.Forall₂ (fun qs (os : List (List Char)) => ∃ q',
      ((os.mapM fun o => (parseOperand (parseWithin limit levels depth) o).result).map Query.all)
        = .ok q' ∧ Same (.all qs) q') qss oss := by
    clear hlevels hbody hsame hoss
    induction hreads with
    | nil => exact .nil
    | cons hos _ ih =>
      refine .cons (exists_mapM_operands hos limit depth (hnest _ (by simp))) (ih ?_)
      intro os hos'
      exact hnest os (by simp [hos'])
  obtain ⟨qs', hqs', hsame'⟩ := Traced.exists_mapM_eq_ok hstep
  refine ⟨.any qs', ?_, fun v => (hsame v).trans (same_any ?_ v)⟩
  · rw [result_parseLevel_join hoss hl hr hbody, hqs']
    rfl
  · rwa [List.forall₂_map_left_iff]

theorem ReadsOperand.term {t : Term} (h : Clean t.text.toList) :
    ReadsOperand (.term t) t.text.toList := by
  refine ⟨h.sealed, ?_⟩
  intro limit levels depth _
  exact ⟨.term t, by rw [parseOperand_clean h]; rfl, fun _ => rfl⟩

theorem ReadsOperand.group {q : Query} {s l r : List Char} (h : ReadsExpression q s)
    (hl : OptSpace l) (hr : OptSpace r) : ReadsOperand q ('(' :: (l ++ s ++ r) ++ [')']) := by
  have hspaced := h.collapse_eq hl hr
  have htrim : Text.trim (l ++ s ++ r) = s :=
    Text.trim_append_append hl.isBlankText h.solid hr.isBlankText
  have hbal : Balanced (l ++ s ++ r) := by
    rw [← Paren.balanced_trim, htrim]
    exact h.balanced
  refine ⟨sealed_group hbal hspaced, ?_⟩
  intro limit levels depth hlevels
  rw [hbal.nesting_group, ← Paren.nesting_trim, htrim] at hlevels
  cases levels with
  | zero => exact absurd hlevels (by simp)
  | succ levels =>
    -- the group takes one level, and leaves as many as its content is nested deep
    rw [parseOperand_group _ hbal]
    refine h.parseLevel limit (depth + 1) depth (Nat.le_of_succ_le_succ hlevels) hl hr ?_
    rw [body_group hbal, hspaced]

/-! ## All layouts -/

/-- What a text is read as where it stands. -/
def Reads : Place → Query → List Char → Prop
  | .operand => ReadsOperand
  | .alternative => ReadsAlternative
  | .expression => ReadsExpression

theorem ReadsOperand.reads_at {q : Query} {o : List Char} (h : ReadsOperand q o) (p : Place) :
    Reads p q o := by
  cases p with
  | operand => exact h
  | alternative => exact h.alternative
  | expression => exact h.alternative.expression

theorem reads_operands {p : Place} {qs : List Query} {ss : List (List Char)} (hne : qs ≠ [])
    (h : List.Forall₂ (fun q s => (∀ t ∈ q.leaves, Clean t.text.toList) → Reads p q s) qs ss)
    (hclean : ∀ t ∈ leavesList qs, Clean t.text.toList) :
    ss ≠ [] ∧ List.Forall₂ (Reads p) qs ss := by
  have hleaves : ∀ q ∈ qs, ∀ t ∈ q.leaves, Clean t.text.toList := by
    intro q hq t ht
    rw [leavesList_eq] at hclean
    exact hclean t (List.mem_flatMap.2 ⟨q, hq, ht⟩)
  refine ⟨?_, ((List.forall₂_and_left _ _).2 ⟨hleaves, h⟩).imp fun q s hqs => hqs.2 hqs.1⟩
  rintro rfl
  exact hne (List.forall₂_nil_right_iff.1 h)

theorem reads_of_layout {p : Place} {q : Query} {s : List Char} (h : Layout p q s) :
    (∀ t ∈ q.leaves, Clean t.text.toList) → Reads p q s := by
  refine Layout.inductParts ?term ?group ?all ?any h
  case term =>
    intro p t hclean
    exact (ReadsOperand.term (hclean t (by simp [leaves]))).reads_at p
  case group =>
    intro p q l s r hl hr ih hclean
    exact (ReadsOperand.group (ih hclean) hl hr).reads_at p
  case all =>
    intro p qs ss hne ih hp hclean
    obtain ⟨hss, hreads⟩ := reads_operands hne ih hclean
    have halt := ReadsAlternative.all hss hreads
    cases p with
    | operand => exact absurd rfl hp
    | alternative => exact halt
    | expression => exact halt.expression
  case any =>
    intro qs ss hne ih hclean
    obtain ⟨hss, hreads⟩ := reads_operands hne ih hclean
    exact ReadsExpression.any hss hreads

end Query

/-! ## The whole text -/

/-- The text is a way to write the query. -/
def Renders (q : Query) (e : String) : Prop :=
  ∃ l s r, OptSpace l ∧ Layout .expression q s ∧ OptSpace r ∧ Respaced (l ++ s ++ r) e.toList

/-- Whichever way a query is written, the text compiles to a normal form that means what the query
means, if no term of it can be mistaken for an operator and the limit allows for the nesting. -/
theorem compileWithin_of_renders (q : Query) (e : String) (limit : Nat)
    (hclean : ∀ t ∈ q.leaves, Clean t.text.toList) (he : Renders q e)
    (hlimit : nesting e.toList ≤ limit) :
    ∃ d, compileWithin limit e = .ok d ∧ ∀ v, d.holds v = q.holds v := by
  obtain ⟨l, s, r, hl, hlayout, hr, hspaced⟩ := he
  have hreads : Query.ReadsExpression q s := Query.reads_of_layout hlayout hclean
  have hcollapse : collapse e.toList = l ++ s ++ r := by
    rw [hspaced.collapse_eq, hreads.collapse_eq hl hr]
  have htrim : Text.trim (l ++ s ++ r) = s :=
    Text.trim_append_append hl.isBlankText hreads.solid hr.isBlankText
  have hbal : Balanced e.toList := by
    rw [← Paren.balanced_collapse, hcollapse, ← Paren.balanced_trim, htrim]
    exact hreads.balanced
  have hnest : nesting s = nesting e.toList := by
    rw [← htrim, Paren.nesting_trim, ← hcollapse, Paren.nesting_collapse]
  -- with a pair of parentheses around it the body of the text is all of it
  have hbody : Query.body ('(' :: e.toList ++ [')']) = l ++ s ++ r := by
    rw [Query.body_group hbal, hcollapse]
  obtain ⟨p, hp, hsame⟩ :=
    hreads.parseLevel limit 1 0 (Nat.le_of_eq hnest) hl hr hbody
  have hgroup : (Query.parseWithin limit (nesting e.toList + 1) 0 ('(' :: e.toList ++ [')'])).result
      = .ok p := hp
  refine ⟨p.dnf, ?_, fun v => (Query.holds_dnf v p).trans (hsame v).symm⟩
  have hstrip := Nat.lt_succ_of_le (Nat.le_trans (Paren.nesting_strip_le e.toList) hlimit)
  rw [compileWithin_of_balanced limit hbal, Query.parse,
    ← Query.map_dnf_parseWithin_group 0 hbal (Nat.lt_succ_self _) hstrip, hgroup]
  rfl

/-- A term with a run of blanks in it, space inside a pair of parentheses, a pair around a term, and
space at the end. -/
theorem compileWithin_of_renders_padded_group :
    (∀ t ∈ (Query.all [.term ⟨"a b"⟩, .any [.term ⟨"c"⟩, .term ⟨"d"⟩]]).leaves,
      Clean t.text.toList) ∧
    Renders (.all [.term ⟨"a b"⟩, .any [.term ⟨"c"⟩, .term ⟨"d"⟩]]) "a \tb AND ( c OR (d)) " ∧
    nesting "a \tb AND ( c OR (d)) ".toList ≤ 2 ∧
    ∃ d, compileWithin 2 "a \tb AND ( c OR (d)) " = .ok d ∧
      ∀ v, d.holds v = (Query.all [.term ⟨"a b"⟩, .any [.term ⟨"c"⟩, .term ⟨"d"⟩]]).holds v := by
  have hclean : ∀ t ∈ (Query.all [.term ⟨"a b"⟩, .any [.term ⟨"c"⟩, .term ⟨"d"⟩]]).leaves,
      Clean t.text.toList := by decide +kernel
  have hd : Layout .alternative (.term ⟨"d"⟩) ('(' :: ([] ++ "d".toList ++ []) ++ [')']) :=
    .group (Or.inl rfl) (.term ⟨"d"⟩) (Or.inl rfl)
  have hcd := Layout.any (by simp) (.cons (.term ⟨"c"⟩) (.cons hd .nil))
  have hgroup := Layout.group (p := .operand) (Or.inr rfl) hcd (Or.inl rfl)
  have hall := Layout.all (p := .expression) (by simp) (by simp)
    (.cons (.term ⟨"a b"⟩) (.cons hgroup .nil))
  have hrenders : Renders (.all [.term ⟨"a b"⟩, .any [.term ⟨"c"⟩, .term ⟨"d"⟩]])
      "a \tb AND ( c OR (d)) " := by
    refine ⟨[], _, [' '], Or.inl rfl, hall, Or.inr rfl, ?_⟩
    exact .keep 'a' (.run (b := [' ', '\t']) (by decide +kernel) (by simp) (Respaced.refl _))
  have hlimit : nesting "a \tb AND ( c OR (d)) ".toList ≤ 2 := by decide +kernel
  exact ⟨hclean, hrenders, hlimit, compileWithin_of_renders _ _ 2 hclean hrenders hlimit⟩

end BooleanQuery
