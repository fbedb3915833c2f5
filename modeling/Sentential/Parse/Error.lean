import Sentential.Token.Basic

/-!
# Parse errors

The ways in which a list of tokens fails to be a sentence, and their messages.
-/

namespace Sentential

/-- The first fault of a list of tokens that is no sentence. -/
inductive ParseError where
  /-- The token may not follow the one before it. -/
  | unexpectedToken (token : Token)
  /-- An operand is missing where the token needs one to be complete. -/
  | missingOperand (token : Token)
  /-- A closing parenthesis closes nothing. -/
  | unmatchedParen
  /-- A parenthesis is still open at the end. -/
  | unclosedParen
  /-- A closing parenthesis directly follows its opening one. -/
  | emptyGroup
  /-- A negation directly follows another. -/
  | doubleNegation
  /-- A negation has no operand. -/
  | danglingNegation
  /-- There are no tokens. -/
  | emptySentence
  /-- Operands are left over that no connective joins. -/
  | incompleteSentence
deriving DecidableEq, Repr

/-- Message of the error. -/
def ParseError.message : ParseError → String
  | .unexpectedToken token => "unexpected token '" ++ token.text ++ "'"
  | .missingOperand token => "missing operand for '" ++ token.text ++ "'"
  | .unmatchedParen => "unmatched ')'"
  | .unclosedParen => "unclosed '('"
  | .emptyGroup => "empty group '()'"
  | .doubleNegation => "double negation '~~', write '~(~a)' instead"
  | .danglingNegation => "'~' is not followed by an operand"
  | .emptySentence => "empty sentence"
  | .incompleteSentence => "operands left without a connective"

end Sentential
