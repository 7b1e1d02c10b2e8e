import ScopeLint.Span

/-!
# What can go wrong

The causes for which a unit, a rule file or a report is given up, and their wording.
-/

namespace ScopeLint

/-- Why the structure of a unit cannot be told. -/
inductive Imbalance where
  /-- The unit ends before the bracket that closes a group. -/
  | unclosed (closing : Char)
  /-- More groups are open at once than any unit needs. -/
  | tooDeep (limit : Nat)
  /-- No `while` closes the loop of a `do`. -/
  | openLoop
  deriving DecidableEq, Repr

def Imbalance.text : Imbalance → String
  | unclosed closing => "end of unit reached before closing `" ++ closing.toString ++ "`"
  | tooDeep limit => s!"nesting deeper than {limit}"
  | openLoop => "`do` without a closing `while`"

/-- An imbalance and the line, counted from 0, that it is reported at. -/
structure Unbalanced where
  line : Nat
  cause : Imbalance
  deriving DecidableEq, Repr

inductive Fault where
  | unbalanced (unit : String) (imbalance : Unbalanced)
  | unreadableUnit (path : String)
  | malformedRules (origin : String)
  | unwritableReport (path : String)
  deriving DecidableEq, Repr

namespace Fault

/-- The wording of a fault; lines are counted from 1. -/
def message : Fault → String
  | unbalanced unit u => s!"{unit}:{succ64 u.line}: unbalanced structure: {u.cause.text}"
  | unreadableUnit path => "could not read source unit `" ++ path ++ "`"
  | malformedRules origin => "malformed rule configuration `" ++ origin ++ "`"
  | unwritableReport path => "could not write report to `" ++ path ++ "`"

end Fault

end ScopeLint
