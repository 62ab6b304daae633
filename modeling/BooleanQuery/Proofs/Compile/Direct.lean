import BooleanQuery.Proofs.Operator.Scan
import BooleanQuery.Proofs.Query.NormalForm
import BooleanQuery.Proofs.Query.Reading

/-!
# Compiling without a query

The compiler reads a query and takes its normal form. The two can be done in one go, without a query
in between: `compileAt` combines the normal forms of the groups of a level while it reads it. The
groups of an alternative and its plain terms are gathered apart, since the terms make up one factor
of the product, the last one.

This way of compiling takes nothing for granted that the other one has settled beforehand. A text is
cut by lexemes that are found one by one, and a fault would end it. The depth is compared with the
limit at each level, and the recursion ends because the depth grows up to there.

Both do the same, in their records, their results and their rejections (`compileDirect_eq`).
-/

set_option autoImplicit false

namespace BooleanQuery

open Text (trim collapse isBlankText)
open Paren (hasParen enclosed? strip)

/-! ## Gathering operands -/

/-- What has been read of an alternative: the normal forms of its groups, and its plain terms. -/
@[ext] structure Gathered where
  groups : List Dnf
  terms : List Term

namespace Gathered

def nothing : Gathered := ⟨[], []⟩

def addTerm (g : Gathered) (t : Term) : Gathered := { g with terms := g.terms ++ [t] }

def addGroup (g : Gathered) (d : Dnf) : Gathered := { g with groups := g.groups ++ [d] }

/-- The product of the groups in order and of the plain terms. -/
def dnf (g : Gathered) : Dnf := Dnf.all (g.groups ++ [Dnf.ofTerms g.terms])

/-- Adds an operand that has been read as a query. -/
def add (g : Gathered) (q : Query) : Gathered :=
  match q.term? with
  | some t => g.addTerm t
  | none => g.addGroup q.dnf

theorem foldl_add (g : Gathered) (qs : List Query) :
    qs.foldl add g
      = ⟨g.groups ++ Query.compoundDnfs qs, g.terms ++ qs.filterMap Query.term?⟩ := by
  induction qs generalizing g with
  | nil => simp [Query.compoundDnfs]
  | cons q qs ih =>
    rw [List.foldl_cons, ih]
    rcases Query.term_or_compound q with ⟨t, rfl⟩ | hq
    · simp [add, addTerm, Query.term?, Query.compoundDnfs]
    · simp [add, addGroup, hq, Query.compoundDnfs_cons hq]

/-- Gathering the operands of a conjunction comes to its normal form. -/
theorem dnf_foldl_add (qs : List Query) : (qs.foldl add nothing).dnf = (Query.all qs).dnf := by
  rw [foldl_add, dnf, Query.dnf_all]
  rfl

end Gathered

/-! ## Compiling a level -/

section Level

variable (find : Finder) (descend : List Char → Traced Dnf)

/-- Cuts a text at an operator, unless there is a fault in the text. -/
def cutAt (op : Operator) (s : List Char) : Traced (List (List Char)) := ⟨[], find.operands? op s⟩

/-- Compiles an operand of `AND` and adds it to those before it. -/
def gatherOperand (g : Gathered) (s : List Char) : Traced Gathered := do
  let operand := trim s
  if operand = [] then Traced.reject .blank
  else if ¬ hasParen operand then return g.addTerm ⟨String.ofList operand⟩
  else if enclosed? operand = none then Traced.reject (.mixed (String.ofList operand))
  else return g.addGroup (← descend operand)

/-- Compiles an operand of `OR`. -/
def compileAlternative (s : List Char) : Traced Dnf := do
  let g ← (← cutAt find .and s).foldlM (gatherOperand descend) Gathered.nothing
  return g.dnf

def compileLevel (depth : Nat) (s : List Char) : Traced Dnf := do
  Traced.record (.reading (String.ofList s) depth)
  let body := collapse (strip s)
  if isBlankText body then Traced.reject .blank
  else return Dnf.any (← (← cutAt find .or body).mapM (compileAlternative find descend))

end Level

/-- Compiles a text that stands at some depth. -/
def compileAt (find : Finder) (limit depth : Nat) : List Char → Traced Dnf :=
  if limit < depth then fun _ => Traced.reject (.tooDeep limit)
  else compileLevel find (compileAt find limit (depth + 1)) depth
termination_by limit + 1 - depth

/-- Compiles an expression, with the records of it. -/
def compileDirect (find : Finder) (limit : Nat) (expression : String) : Traced Dnf :=
  match Paren.unmatched? expression.toList with
  | some position => Traced.reject (.unbalanced position)
  | none => do
    let d ← compileAt find limit 0 expression.toList
    Traced.record (.compiled expression d.size)
    return d

/-! ## Sequences -/

namespace Traced

variable {α β γ : Type}

theorem bind_congr_of_ok {x : Traced α} {f g : α → Traced β}
    (h : ∀ a, x.result = .ok a → f a = g a) : x >>= f = x >>= g := by
  obtain ⟨log, _ | a⟩ := x
  · rfl
  · show (⟨log ++ (f a).log, (f a).result⟩ : Traced β) = ⟨log ++ (g a).log, (g a).result⟩
    rw [h a rfl]

/-- What is done with each value on the way can be done with all of them at the end. -/
theorem foldlM_map (f : α → Traced β) (g : γ → β → γ) (c : γ) (xs : List α) :
    xs.foldlM (fun c x => g c <$> f x) c = (fun ys => ys.foldl g c) <$> xs.mapM f := by
  induction xs generalizing c with
  | nil => rfl
  | cons x xs ih => simp [List.foldlM_cons, List.mapM_cons, ih]

theorem mapM_map (f : α → Traced β) (g : β → γ) (xs : List α) :
    xs.mapM (fun x => g <$> f x) = List.map g <$> xs.mapM f := by
  induction xs with
  | nil => rfl
  | cons x xs ih => simp [List.mapM_cons, ih]

end Traced

/-! ## One level -/

open Query (parseOperand parseAlternative parseLevel parseWithin)

theorem cutAt_eq {find : Finder} (hfind : find.LongestMatch) (op : Operator) (s : List Char) :
    cutAt find op s = pure (op.operands s) := by
  rw [cutAt, hfind.operands?_eq_ok]
  rfl

section Agree

variable {descend : List Char → Traced Query}
  (hdescend : ∀ s q, (descend s).result = .ok q → q.term? = none)

include hdescend

theorem gatherOperand_eq (g : Gathered) (s : List Char) :
    gatherOperand (fun t => Query.dnf <$> descend t) g s
      = g.add <$> parseOperand descend s := by
  rw [Query.parseOperand_eq]
  unfold gatherOperand
  dsimp only
  split
  · rfl
  · split
    · rfl
    · split
      · rfl
      · -- a group is told from a plain term by the text here, and there by the query
        rw [bind_map_left, map_eq_pure_bind g.add]
        apply Traced.bind_congr_of_ok
        intro q hq
        rw [Gathered.add, hdescend _ q hq]

variable {find : Finder} (hfind : find.LongestMatch)

include hfind

theorem compileAlternative_eq (s : List Char) :
    compileAlternative find (fun t => Query.dnf <$> descend t) s
      = Query.dnf <$> parseAlternative descend s := by
  have hgather : gatherOperand (fun t => Query.dnf <$> descend t)
      = fun g o => g.add <$> parseOperand descend o :=
    funext fun g => funext fun o => gatherOperand_eq hdescend g o
  unfold compileAlternative
  rw [cutAt_eq hfind, pure_bind, hgather, Traced.foldlM_map, Query.parseAlternative_eq]
  simp [Gathered.dnf_foldl_add]

theorem compileLevel_eq (depth : Nat) (s : List Char) :
    compileLevel find (fun t => Query.dnf <$> descend t) depth s
      = Query.dnf <$> parseLevel descend depth s := by
  have hcompile : compileAlternative find (fun t => Query.dnf <$> descend t)
      = fun a => Query.dnf <$> parseAlternative descend a :=
    funext (compileAlternative_eq hdescend hfind)
  unfold compileLevel
  rw [hcompile, Query.parseLevel_eq, map_bind]
  congr 1
  funext _
  dsimp only
  rw [← Query.body]
  split
  · rfl
  · rw [cutAt_eq hfind, pure_bind, Traced.mapM_map]
    simp [Query.dnf_any]

end Agree

/-! ## All levels -/

theorem compileAt_eq {find : Finder} (hfind : find.LongestMatch) {limit levels depth : Nat}
    (h : limit + 1 = depth + levels) (s : List Char) :
    compileAt find limit depth s = Query.dnf <$> parseWithin limit levels depth s := by
  induction levels generalizing depth s with
  | zero =>
    rw [compileAt, if_pos (by omega)]
    rfl
  | succ levels ih =>
    have hnext : compileAt find limit (depth + 1)
        = fun t => Query.dnf <$> parseWithin limit levels (depth + 1) t :=
      funext (ih (by omega))
    rw [compileAt, if_neg (by omega), hnext]
    exact compileLevel_eq (fun t q => Query.term?_of_parseWithin) hfind depth s

/-- Whatever finds the longest tokens, compiling without a query is compiling. -/
theorem compileDirect_eq {find : Finder} (hfind : find.LongestMatch) (limit : Nat) (e : String) :
    compileDirect find limit e = compileTraced limit e := by
  unfold compileDirect
  cases h : Paren.unmatched? e.toList with
  | some p => rw [compileTraced_of_unmatched limit h]
  | none =>
    rw [compileTraced_of_balanced limit h, compileAt_eq hfind (Nat.zero_add _).symm]
    simp [Query.parse]

end BooleanQuery
