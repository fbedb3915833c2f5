import Sentential.Connective
import Sentential.Truth

/-!
# Tokens

The words and marks that a written sentence is made of, their text, and the kind
of each token, which is what decides the tokens that may follow it.
-/

namespace Sentential

/-- A token of a written sentence. A variable may have any name, that of a
keyword or of a mark included. -/
inductive Token where
  | lparen
  | rparen
  | neg
  | connective (op : Connective)
  | const (value : Bool)
  | var (name : String)
deriving DecidableEq, Repr

namespace Token

/-- Text of the token. -/
def text : Token → String
  | .lparen => "("
  | .rparen => ")"
  | .neg => "~"
  | .connective op => op.symbol
  | .const value => truthWord value
  | .var name => name

/-- A token without the value of a constant and the name of a variable. -/
inductive Kind where
  | lparen
  | rparen
  | neg
  | connective (op : Connective)
  | const
  | var
deriving DecidableEq, Repr

/-- The kind of a token. -/
def kind : Token → Kind
  | .lparen => .lparen
  | .rparen => .rparen
  | .neg => .neg
  | .connective op => .connective op
  | .const _ => .const
  | .var _ => .var

/-- Whether an operand is complete after a token of this kind, so that only a
connective or a closing parenthesis may follow. -/
def Kind.endsOperand : Kind → Bool
  | .rparen | .const | .var => true
  | .lparen | .neg | .connective _ => false

end Token

end Sentential
