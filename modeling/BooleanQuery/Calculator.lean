import BooleanQuery.Compile

/-!
# A calculator of normal forms

A stack of normal forms, and steps that push, combine and inspect them. A step that cannot run
leaves the state as it is and answers why; the steps after it run all the same.
-/

set_option autoImplicit false

namespace BooleanQuery.Calculator

inductive Step where
  /-- Compiles within this limit from now on. -/
  | setLimit (limit : Nat)
  | compile (expression : String)
  /-- Compiles the written form of the top, which stays. -/
  | recompile
  | push (d : Dnf)
  | dup
  | swap
  | pop
  /-- Replaces the two topmost by their product, the deeper one as the left factor. -/
  | cross
  /-- Replaces the `n` topmost by their conjunction, the deepest first. -/
  | all (n : Nat)
  /-- Replaces the `n` topmost by their disjunction, the deepest first. -/
  | any (n : Nat)
  /-- Pushes the conjunction of two clauses of the top, which stays. -/
  | merge (i j : Nat)
  | clauses
  /-- Compares the two topmost. -/
  | equal
deriving Repr

/-- Why a step cannot run. -/
inductive Fault where
  | underflow
  | noClause
deriving DecidableEq, Repr

def Fault.message : Fault → String
  | .underflow => "stack underflow"
  | .noClause => "no clause"

inductive Answer where
  | limit (limit : Nat) (isDefault : Bool)
  /-- The new top and the size of the stack with it. -/
  | top (d : Dnf) (size : Nat)
  | size (n : Nat)
  | clauses (cs : List Clause)
  | equal (same : Bool)
  | rejected (e : Rejection)
  | fault (f : Fault)
deriving DecidableEq, Repr

structure State where
  /-- The normal forms, the top first. -/
  stack : List Dnf
  limit : Nat
deriving DecidableEq, Repr

namespace State

def start : State := ⟨[], defaultLimit⟩

/-- Puts a normal form on top of the forms in `rest`. -/
def pushOn (s : State) (rest : List Dnf) (d : Dnf) : Answer × State :=
  (.top d (rest.length + 1), { s with stack := d :: rest })

/-- Compiles an expression and pushes its normal form. -/
def compile (s : State) (expression : String) : Answer × State :=
  match compileWithin s.limit expression with
  | .ok d => s.pushOn s.stack d
  | .error e => (.rejected e, s)

/-- Replaces the `n` topmost normal forms by what `f` makes of them, the deepest first. -/
def combine (s : State) (n : Nat) (f : List Dnf → Dnf) : Answer × State :=
  if n ≤ s.stack.length then s.pushOn (s.stack.drop n) (f (s.stack.take n).reverse)
  else (.fault .underflow, s)

/-- The answer of a step and the state after it. -/
def step (s : State) : Step → Answer × State
  | .setLimit limit => (.limit limit (limit = defaultLimit), { s with limit })
  | .compile expression => s.compile expression
  | .recompile =>
    match s.stack with
    | d :: _ => s.compile d.written
    | _ => (.fault .underflow, s)
  | .push d => s.pushOn s.stack d
  | .dup =>
    match s.stack with
    | d :: _ => s.pushOn s.stack d
    | _ => (.fault .underflow, s)
  | .swap =>
    match s.stack with
    | d :: e :: rest => s.pushOn (d :: rest) e
    | _ => (.fault .underflow, s)
  | .pop =>
    match s.stack with
    | _ :: rest => (.size rest.length, { s with stack := rest })
    | _ => (.fault .underflow, s)
  | .cross =>
    match s.stack with
    | e :: d :: rest => s.pushOn rest (d.cross e)
    | _ => (.fault .underflow, s)
  | .all n => s.combine n Dnf.all
  | .any n => s.combine n Dnf.any
  | .merge i j =>
    match s.stack with
    | d :: _ =>
      match d.clauses[i]?, d.clauses[j]? with
      | some c, some c' => s.pushOn s.stack ⟨[c.merge c']⟩
      | _, _ => (.fault .noClause, s)
    | _ => (.fault .underflow, s)
  | .clauses =>
    match s.stack with
    | d :: _ => (.clauses d.clauses, s)
    | _ => (.fault .underflow, s)
  | .equal =>
    match s.stack with
    | d :: e :: _ => (.equal (d = e), s)
    | _ => (.fault .underflow, s)

/-- The answers of the steps in order. -/
def run (s : State) : List Step → List Answer
  | [] => []
  | t :: ts =>
    let (answer, next) := s.step t
    answer :: run next ts

end State

end BooleanQuery.Calculator
