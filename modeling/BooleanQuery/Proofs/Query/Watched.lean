import BooleanQuery.Proofs.Query.Reading

/-!
# Watching a reading

The reader hands pieces of its text from function to function, and its result does not tell which
ones. A `Watched` computation is a traced one together with the calls that are made in it. A text
can be read in this monad as in any other, and then the calls are kept. As with the records of the
log, those that were made before a rejection stay, and none is made after it.

Forgetting the calls makes no difference to what is done (`outcome_bind`), so that what is left of a
watched reading is the reading itself, records included (`outcome_compileWatched`). So what holds of
all calls of the one holds of all calls of the other.
-/

set_option autoImplicit false

namespace BooleanQuery

/-- A traced computation and the calls that are made in it. -/
@[ext] structure Watched (α : Type) where
  calls : List Call
  outcome : Traced α

namespace Watched

variable {α β : Type}

/-- A computation without calls. -/
def quiet (x : Traced α) : Watched α := ⟨[], x⟩

/-- Notes a call. -/
def call (c : Call) : Watched Unit := ⟨[c], pure ()⟩

instance : Monad Watched where
  pure a := ⟨[], pure a⟩
  bind x f :=
    match x.outcome.result with
    | .error _ => ⟨x.calls, x.outcome >>= fun a => (f a).outcome⟩
    | .ok a => ⟨x.calls ++ (f a).calls, x.outcome >>= fun a => (f a).outcome⟩

@[simp] theorem outcome_pure (a : α) : (pure a : Watched α).outcome = pure a := rfl

/-- The notes make no difference to what is done. -/
@[simp] theorem outcome_bind (x : Watched α) (f : α → Watched β) :
    (x >>= f).outcome = x.outcome >>= fun a => (f a).outcome := by
  obtain ⟨calls, log, _ | a⟩ := x <;> rfl

theorem calls_bind_of_ok {x : Watched α} {a : α} (f : α → Watched β)
    (h : x.outcome.result = .ok a) : (x >>= f).calls = x.calls ++ (f a).calls := by
  obtain ⟨calls, log, result⟩ := x
  subst h
  rfl

theorem calls_bind_of_error {x : Watched α} {e : Rejection} (f : α → Watched β)
    (h : x.outcome.result = .error e) : (x >>= f).calls = x.calls := by
  obtain ⟨calls, log, result⟩ := x
  subst h
  rfl

instance : LawfulMonad Watched := LawfulMonad.mk' Watched
  (by
    intro α x
    obtain ⟨calls, log, _ | a⟩ := x <;> simp [Functor.map, Bind.bind, Pure.pure])
  (by
    intro α β a f
    simp [Bind.bind, Pure.pure])
  (by
    intro α β γ x f g
    apply Watched.ext
    · cases hx : x.outcome.result with
      | error e =>
        have hxf : (x >>= f).outcome.result = .error e := by
          rw [outcome_bind, Traced.result_bind, hx]
          rfl
        rw [calls_bind_of_error g hxf, calls_bind_of_error f hx, calls_bind_of_error _ hx]
      | ok a =>
        have hxf : (x >>= f).outcome.result = (f a).outcome.result := by
          rw [outcome_bind, Traced.result_bind, hx]
          rfl
        rw [calls_bind_of_ok _ hx]
        cases hf : (f a).outcome.result with
        | error e =>
          rw [calls_bind_of_error g (hxf.trans hf), calls_bind_of_ok f hx,
            calls_bind_of_error g hf]
        | ok b =>
          rw [calls_bind_of_ok g (hxf.trans hf), calls_bind_of_ok f hx, calls_bind_of_ok g hf,
            List.append_assoc]
    · simp)

instance : Reading Watched where
  reject e := quiet (Traced.reject e)
  record r := quiet (Traced.record r)
  note := call

@[simp] theorem outcome_note (c : Call) : (Reading.note c : Watched Unit).outcome = pure () := rfl

theorem outcome_mapM (f : α → Watched β) (xs : List α) :
    (xs.mapM f).outcome = xs.mapM fun x => (f x).outcome := by
  induction xs with
  | nil => rfl
  | cons x xs ih => simp only [List.mapM_cons, outcome_bind, outcome_pure, ih]

/-! ## All calls -/

/-- What holds of each call that is made. -/
def Every (P : Call → Prop) (x : Watched α) : Prop := ∀ c ∈ x.calls, P c

variable {P : Call → Prop}

theorem every_pure (a : α) : (pure a : Watched α).Every P := by
  intro c hc
  exact absurd hc List.not_mem_nil

theorem every_quiet (x : Traced α) : (quiet x).Every P := by
  intro c hc
  exact absurd hc List.not_mem_nil

theorem every_call {c : Call} (h : P c) : (call c).Every P := by
  intro d hd
  obtain rfl := List.mem_singleton.1 hd
  exact h

theorem Every.bind {x : Watched α} {f : α → Watched β} (hx : x.Every P)
    (hf : ∀ a, x.outcome.result = .ok a → (f a).Every P) : (x >>= f).Every P := by
  intro c hc
  cases h : x.outcome.result with
  | error e =>
    rw [calls_bind_of_error f h] at hc
    exact hx c hc
  | ok a =>
    rw [calls_bind_of_ok f h] at hc
    rcases List.mem_append.1 hc with hc | hc
    · exact hx c hc
    · exact hf a h c hc

theorem every_mapM {f : α → Watched β} {xs : List α} (h : ∀ x ∈ xs, (f x).Every P) :
    (xs.mapM f).Every P := by
  induction xs with
  | nil => exact every_pure []
  | cons x xs ih =>
    rw [List.mapM_cons]
    apply (h x (by simp)).bind
    intro y _
    exact (ih fun z hz => h z (by simp [hz])).bind fun ys _ => every_pure (y :: ys)

end Watched

/-! ## Reading -/

/-- Compiles an expression, with the records and the calls of it. -/
def compileWatched (limit : Nat) (expression : String) : Watched Dnf :=
  compileIn Watched limit expression

namespace Query

theorem outcome_callEnclosed (s : List Char) :
    (callEnclosed s : Watched _).outcome = pure (Paren.enclosed? s) := rfl

theorem outcome_callStrip (s : List Char) :
    (callStrip s : Watched _).outcome = pure (Paren.strip s) := rfl

theorem outcome_callOperands (op : Operator) (s : List Char) :
    (callOperands op s : Watched _).outcome = pure (op.operands s) := rfl

variable {watched : List Char → Watched Query} {descend : List Char → Traced Query}

theorem outcome_callLevel (h : ∀ s, (watched s).outcome = descend s) (caller s : List Char) :
    (callLevel watched caller s).outcome = descend s := h s

theorem outcome_parseOperand (h : ∀ s, (watched s).outcome = descend s) (s : List Char) :
    (parseOperand watched s).outcome = parseOperand descend s := by
  rw [parseOperand_eq]
  unfold parseOperand
  dsimp only
  split
  · rfl
  · split
    · rfl
    · rw [Watched.outcome_bind, outcome_callEnclosed, pure_bind]
      split
      · rfl
      · exact h _

theorem outcome_parseAlternative (h : ∀ s, (watched s).outcome = descend s) (s : List Char) :
    (parseAlternative watched s).outcome = parseAlternative descend s := by
  rw [parseAlternative_eq]
  simp only [parseAlternative, Watched.outcome_bind, Watched.outcome_note, Watched.outcome_pure,
    outcome_callOperands, Watched.outcome_mapM, pure_bind, outcome_parseOperand h]

theorem outcome_parseLevel (h : ∀ s, (watched s).outcome = descend s) (depth : Nat)
    (s : List Char) : (parseLevel watched depth s).outcome = parseLevel descend depth s := by
  rw [parseLevel_eq]
  unfold parseLevel
  rw [Watched.outcome_bind]
  congr 1
  funext _
  rw [Watched.outcome_bind, outcome_callStrip, pure_bind, ← body]
  dsimp only
  split
  · rfl
  · simp only [Watched.outcome_bind, Watched.outcome_pure, outcome_callOperands,
      Watched.outcome_mapM, pure_bind, outcome_parseAlternative (outcome_callLevel h _)]

theorem outcome_parseIn (limit levels depth : Nat) (s : List Char) :
    (parseIn Watched limit levels depth s).outcome = parseWithin limit levels depth s := by
  induction levels generalizing depth s with
  | zero => rfl
  | succ levels ih => exact outcome_parseLevel (ih (depth + 1)) depth s

end Query

/-- Watching changes nothing about a compilation, neither its result nor its records. -/
theorem outcome_compileWatched (limit : Nat) (e : String) :
    (compileWatched limit e).outcome = compileTraced limit e := by
  unfold compileWatched compileTraced compileIn
  cases Paren.unmatched? e.toList with
  | some position => rfl
  | none =>
    dsimp only
    rw [Watched.outcome_bind, Watched.outcome_bind, Query.outcome_parseIn]
    rfl

end BooleanQuery
