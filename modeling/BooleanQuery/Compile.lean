import BooleanQuery.Dnf.Written
import BooleanQuery.Query.NormalForm
import BooleanQuery.Query.Parse

/-!
# Compiling an expression

From the text of a search expression to its normal form. Balance is decided first, on the text as
it was given: nothing is read, and nothing recorded, of a text that has a parenthesis without a
partner.

A normal form can be written as an expression again (`Dnf.written`); `roundTrip` compiles what was
written.
-/

set_option autoImplicit false

namespace BooleanQuery

/-- How deep parentheses may be nested where nothing else is asked for. -/
def defaultLimit : Nat := 128

/-- Compiles an expression. -/
def compileIn (m : Type → Type) [Monad m] [Reading m] (limit : Nat) (expression : String) : m Dnf :=
  match Paren.unmatched? expression.toList with
  | some position => Reading.reject (.unbalanced position)
  | none => do
    Reading.note (.level none expression.toList)
    let query ← Query.parseIn m limit (limit + 1) 0 expression.toList
    let d := query.dnf
    Reading.record (.compiled expression d.size)
    return d

/-- Compiles an expression, with the records of it. -/
def compileTraced (limit : Nat) (expression : String) : Traced Dnf :=
  compileIn Traced limit expression

/-- The normal form of an expression whose parentheses are nested no deeper than the limit. -/
def compileWithin (limit : Nat) (expression : String) : Except Rejection Dnf :=
  (compileTraced limit expression).result

/-- The normal form of an expression, within the default limit. -/
def compile (expression : String) : Except Rejection Dnf := compileWithin defaultLimit expression

/-- A normal form, and what its written form compiles to. -/
structure RoundTrip where
  first : Dnf
  again : Except Rejection Dnf

namespace RoundTrip

/-- Whether writing and compiling gave the normal form back. -/
def agrees (r : RoundTrip) : Bool :=
  match r.again with
  | .ok d => d = r.first
  | .error _ => false

end RoundTrip

/-- Compiles an expression, and then, within the default limit, its written normal form. -/
def roundTrip (limit : Nat) (expression : String) : Except Rejection RoundTrip :=
  (compileWithin limit expression).map fun d => ⟨d, compile d.written⟩

end BooleanQuery
