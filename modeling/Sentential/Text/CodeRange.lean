/-!
# Ranges of code points

Character properties are given as tables of ranges; a character has the property
when one of the ranges holds its code point.
-/

namespace Sentential.Text

/-- All code points from `first` to `last`, both included. -/
structure CodeRange where
  first : Nat
  last : Nat
deriving DecidableEq, Repr

namespace CodeRange

/-- Whether the code point of the character lies in the range. -/
def contains (r : CodeRange) (c : Char) : Bool := r.first ≤ c.toNat && c.toNat ≤ r.last

end CodeRange

/-- Whether one of the ranges of a table holds the character. -/
def inTable (table : List CodeRange) (c : Char) : Bool := table.any (·.contains c)

end Sentential.Text
