/-!
# Binary connectives

The four binary connectives of propositional logic, the symbol each is written
with, and its truth table.
-/

namespace Sentential

/-- A binary connective. -/
inductive Connective where
  | and
  | or
  | implies
  | iff
deriving DecidableEq, Repr

namespace Connective

/-- The symbol written between the two operands. -/
def symbol : Connective → String
  | .and => "and"
  | .or => "or"
  | .implies => "==>"
  | .iff => "<=>"

/-- Truth table of the connective. Implication is material, and the biconditional
is the conjunction of both implications. -/
def apply : Connective → Bool → Bool → Bool
  | .and, a, b => a && b
  | .or, a, b => a || b
  | .implies, a, b => !a || b
  | .iff, a, b => (!a || b) && (!b || a)

/-- The biconditional holds exactly of equal truth values. -/
theorem apply_iff (a b : Bool) : apply .iff a b = (a == b) := by
  cases a <;> cases b <;> rfl

/-- An implication fails exactly when its conclusion alone is false. -/
theorem apply_implies (a b : Bool) : apply .implies a b = !(a && !b) := by
  cases a <;> cases b <;> rfl

end Connective

end Sentential
