import BooleanQuery.Rejection

/-!
# The log

Reading an expression leaves a record for each level of parentheses that is entered, and one for
the normal form at the end. A `Traced` computation is its records together with its result.
Records that were made before a rejection are kept; none is made after it.
-/

set_option autoImplicit false

namespace BooleanQuery

inductive LogLevel where
  | trace
  | debug
deriving DecidableEq, Repr

def LogLevel.name : LogLevel → String
  | .trace => "TRACE"
  | .debug => "DEBUG"

inductive LogRecord where
  /-- The text of a level is about to be read. -/
  | reading (text : String) (depth : Nat)
  /-- The whole text has been compiled. -/
  | compiled (text : String) (clauses : Nat)
deriving DecidableEq, Repr

namespace LogRecord

def level : LogRecord → LogLevel
  | .reading .. => .trace
  | .compiled .. => .debug

def message : LogRecord → String
  | .reading text depth =>
    "compiling " ++ String.ofList (Text.quoted text.toList) ++ " at depth " ++ toString depth
  | .compiled text clauses =>
    "compiled " ++ String.ofList (Text.quoted text.toList) ++ " into " ++ toString clauses
      ++ " clause(s)"

end LogRecord

/-- A result and the records made on the way to it. -/
@[ext] structure Traced (α : Type) where
  log : List LogRecord
  result : Except Rejection α

namespace Traced

variable {α β : Type}

/-- Makes a record. -/
def record (r : LogRecord) : Traced Unit := ⟨[r], .ok ()⟩

/-- Ends with a rejection. -/
def reject (e : Rejection) : Traced α := ⟨[], .error e⟩

instance : Monad Traced where
  pure a := ⟨[], .ok a⟩
  bind x f :=
    match x.result with
    | .error e => ⟨x.log, .error e⟩
    | .ok a => ⟨x.log ++ (f a).log, (f a).result⟩

instance : LawfulMonad Traced := LawfulMonad.mk' Traced
  (by rintro α ⟨log, _ | a⟩ <;> simp [Functor.map])
  (by intro α β a f; simp [Bind.bind, Pure.pure])
  (by rintro α β γ ⟨log, _ | a⟩ f g
      · rfl
      · simp only [Bind.bind]
        cases (f a).result <;> simp)

@[simp] theorem log_pure (a : α) : (pure a : Traced α).log = [] := rfl

@[simp] theorem result_pure (a : α) : (pure a : Traced α).result = .ok a := rfl

@[simp] theorem log_record (r : LogRecord) : (record r).log = [r] := rfl

@[simp] theorem result_record (r : LogRecord) : (record r).result = .ok () := rfl

@[simp] theorem log_reject (e : Rejection) : (reject e : Traced α).log = [] := rfl

@[simp] theorem result_reject (e : Rejection) : (reject e : Traced α).result = .error e := rfl

/-- The result of a sequence does not depend on the records of its first part. -/
@[simp] theorem result_bind (x : Traced α) (f : α → Traced β) :
    (x >>= f).result = x.result.bind fun a => (f a).result := by
  obtain ⟨log, _ | a⟩ := x <;> rfl

theorem log_bind_of_ok {x : Traced α} {a : α} (f : α → Traced β) (h : x.result = .ok a) :
    (x >>= f).log = x.log ++ (f a).log := by
  obtain ⟨log, result⟩ := x
  subst h
  rfl

theorem log_bind_of_error {x : Traced α} {e : Rejection} (f : α → Traced β)
    (h : x.result = .error e) : (x >>= f).log = x.log := by
  obtain ⟨log, result⟩ := x
  subst h
  rfl

end Traced

end BooleanQuery
