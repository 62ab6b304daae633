import BooleanQuery.Text.Quoted

/-!
# Rejections

Why a text is no search expression, with what is needed to point at the fault, and the sentence
that a rejection is reported with.
-/

set_option autoImplicit false

namespace BooleanQuery

/-- Why a text could not be cut into tokens. -/
inductive LexicalFault where
  /-- A character that no token begins with. There is none, so no text has this fault. -/
  | invalidToken
deriving DecidableEq, Repr

namespace LexicalFault

def name : LexicalFault → String
  | .invalidToken => "InvalidToken"

def description : LexicalFault → String
  | .invalidToken => "invalid token"

end LexicalFault

inductive Rejection where
  | lexical (fault : LexicalFault)
  /-- The parenthesis at this byte offset has no partner. -/
  | unbalanced (position : Nat)
  /-- White space, or nothing at all, where an expression or an operand should be. -/
  | blank
  /-- An operand that has parentheses but is no parenthesized expression. -/
  | mixed (fragment : String)
  /-- More levels of parentheses than this limit allows. -/
  | tooDeep (limit : Nat)
deriving DecidableEq, Repr

/-- The rejection in words. -/
def Rejection.message : Rejection → String
  | .lexical fault => "failed to lex the expression with " ++ fault.name
  | .unbalanced position => "unbalanced parentheses at byte " ++ toString position
  | .blank => "the expression (or one of its operands) is empty"
  | .mixed fragment =>
    String.ofList (Text.quoted fragment.toList)
      ++ " contains parentheses but is not wholly enclosed by them"
  | .tooDeep limit => "parentheses are nested deeper than the limit of " ++ toString limit

instance : ToString Rejection := ⟨Rejection.message⟩

end BooleanQuery
