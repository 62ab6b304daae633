import BooleanQuery.Call
import BooleanQuery.Operator.Operands
import BooleanQuery.Paren.Balance
import BooleanQuery.Paren.Enclosure
import BooleanQuery.Query.Basic
import BooleanQuery.Text.Spacing

/-!
# Reading a query

An expression is read level by level. At each level the enclosing parentheses are dropped, the
spacing is collapsed, and the text is cut at `OR` and then, each part of it, at `AND`: so `AND`
binds closer. An operand without parentheses is a term, and one that is enclosed by a pair of them
is read as a level of its own, one deeper.

Levels are counted from 0, and no level deeper than the limit is read. The recursion goes down on
the number of levels that are left, so it ends whatever the text is. All parts of a level are read
in their textual order, and the first fault ends the reading.

The reader is one for all monads that a text can be read in (`Reading`). `parseWithin` is the one
that the program runs.
-/

set_option autoImplicit false

namespace BooleanQuery.Query

open Reading (reject record note)

section Reader

variable {m : Type → Type} [Monad m] [Reading m]

def callEnclosed (s : List Char) : m (Option (List Char)) := do
  note (.enclosed s)
  return Paren.enclosed? s

def callStrip (s : List Char) : m (List Char) := do
  note (.strip s)
  return (← callEnclosed (Text.trim s)).getD s

def callOperands (op : Operator) (s : List Char) : m (List (List Char)) := do
  note (.operands op s)
  return op.operands s

/-- Reads an operand of `AND`; `descend` reads a text in parentheses. -/
def parseOperand (descend : List Char → m Query) (s : List Char) : m Query :=
  let operand := Text.trim s
  if operand = [] then reject .blank
  else if ¬ Paren.hasParen operand then return .term ⟨String.ofList operand⟩
  else do
    if (← callEnclosed operand) = none then reject (.mixed (String.ofList operand))
    else descend operand

/-- Reads an operand of `OR`. -/
def parseAlternative (descend : List Char → m Query) (s : List Char) : m Query := do
  note (.alternative s)
  return .all (← (← callOperands .and s).mapM (parseOperand descend))

/-- Reads a group of a level whose own text is `caller`. -/
def callLevel (descend : List Char → m Query) (caller : List Char) (s : List Char) : m Query := do
  note (.level (some caller) s)
  descend s

/-- Reads a level. -/
def parseLevel (descend : List Char → m Query) (depth : Nat) (s : List Char) : m Query := do
  record (.reading (String.ofList s) depth)
  let body := Text.collapse (← callStrip s)
  if Text.isBlankText body then reject .blank
  else return .any (← (← callOperands .or body).mapM (parseAlternative (callLevel descend body)))

end Reader

/-- Reads a text at a depth from which `levels` more levels may be entered, itself included. -/
def parseIn (m : Type → Type) [Monad m] [Reading m] (limit : Nat) :
    (levels depth : Nat) → List Char → m Query
  | 0, _, _ => reject (.tooDeep limit)
  | levels + 1, depth, s => parseLevel (parseIn m limit levels (depth + 1)) depth s

/-- Reads a text, with its records. -/
def parseWithin (limit levels depth : Nat) (s : List Char) : Traced Query :=
  parseIn Traced limit levels depth s

/-- Reads an expression whose parentheses may be nested `limit` deep inside an enclosing pair. -/
def parse (limit : Nat) (s : List Char) : Traced Query := parseWithin limit (limit + 1) 0 s

end BooleanQuery.Query
