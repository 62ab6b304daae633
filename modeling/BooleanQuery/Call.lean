import BooleanQuery.Log
import BooleanQuery.Operator.Basic

/-!
# Calls

The functions that read an expression hand pieces of its text to one another, and the result of a
reading does not tell which ones. So the reader is written for any monad in which a reading can be
made (`Reading`): one that can reject and record, and that is told of every call. The program reads
in `Traced`, where that goes unheard. A monad that keeps the calls runs the same reader.
-/

set_option autoImplicit false

namespace BooleanQuery

/-- A call, with the text that is passed on by it. -/
inductive Call where
  /-- A text is read as a level. The caller is given by the text that it has to read itself; the
  level of the whole expression has none. -/
  | level (caller : Option (List Char)) (text : List Char)
  /-- A text is stripped of the pair that encloses it. -/
  | strip (text : List Char)
  /-- A text is asked for its enclosed content. -/
  | enclosed (text : List Char)
  /-- A text is cut at an operator. -/
  | operands (op : Operator) (text : List Char)
  /-- A text is read as an operand of `OR`. -/
  | alternative (text : List Char)
deriving DecidableEq, Repr

def Call.text : Call → List Char
  | .level _ s => s
  | .strip s => s
  | .enclosed s => s
  | .operands _ s => s
  | .alternative s => s

/-- What a monad has to offer for a text to be read in it. -/
class Reading (m : Type → Type) where
  /-- Ends with a rejection. -/
  reject {α : Type} (e : Rejection) : m α
  /-- Makes a record. -/
  record (r : LogRecord) : m Unit
  /-- Is told that a call is made. -/
  note (c : Call) : m Unit

/-- A traced reading takes no notes. -/
instance : Reading Traced where
  reject := Traced.reject
  record := Traced.record
  note _ := pure ()

end BooleanQuery
