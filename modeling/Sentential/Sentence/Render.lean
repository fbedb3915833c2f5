import Sentential.Sentence.Basic
import Sentential.Truth

/-!
# Written sentences

Two ways to write a sentence. `Sentence.render` is infix with a pair of
parentheses around every binary sentence, in the notation that the parser reads.
`Sentence.bracketed` puts the operation in front of its bracketed operands.
-/

namespace Sentential.Sentence

/-- Infix text with every binary sentence in parentheses. A negated negation is
parenthesised too, because two `~` in a row are not read back. -/
def render : Sentence → String
  | .const value => truthWord value
  | .var name => name
  | .neg body => if body.isNegation then "~(" ++ body.render ++ ")" else "~" ++ body.render
  | .binary op lhs rhs => "(" ++ lhs.render ++ " " ++ op.symbol ++ " " ++ rhs.render ++ ")"

/-- Text with each operation in front of its operands, which stand in brackets
and are set apart by single spaces: `and( a ~( b ) )`. -/
def bracketed : Sentence → String
  | .const value => truthWord value
  | .var name => name
  | .neg body => "~( " ++ body.bracketed ++ " )"
  | .binary op lhs rhs => op.symbol ++ "( " ++ lhs.bracketed ++ " " ++ rhs.bracketed ++ " )"

end Sentential.Sentence
