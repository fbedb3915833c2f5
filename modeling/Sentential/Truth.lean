/-!
# Written truth values

The two ways a truth value is written: as a word in sentences and models, and as
a single letter in the cells of a truth table.
-/

namespace Sentential

/-- The word for a truth value, as sentences and models write it. -/
def truthWord : Bool → String
  | true => "true"
  | false => "false"

/-- The letter for a truth value, as the cells of a truth table write it. -/
def truthLetter : Bool → String
  | true => "T"
  | false => "F"

end Sentential
