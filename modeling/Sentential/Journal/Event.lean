import Sentential.Model.Basic
import Sentential.Sentence.Render
import Sentential.Text.Quoted
import Sentential.Token.Basic

/-!
# Events

What the library reports while it works, the level and the source of each report,
and the line in which it is written.
-/

namespace Sentential

/-- How much is reported. The level `trace` includes the reports of `debug`. -/
inductive Level where
  | debug
  | trace
deriving DecidableEq, Repr

namespace Level

/-- Whether a report of level `event` is kept where `level` is asked for. -/
def keeps : (level event : Level) → Bool
  | .trace, _ | .debug, .debug => true
  | .debug, .trace => false

/-- Name of the level at the head of a line. -/
def name : Level → String
  | .debug => "DEBUG"
  | .trace => "TRACE"

end Level

/-- A report about work in progress. -/
inductive Event where
  /-- A text was cut into `count` tokens. -/
  | lexed (text : String) (count : Nat)
  /-- The parser comes to a token, after one of the given kind. -/
  | reached (token : Token) (previous : Option Token.Kind)
  /-- So many tokens were parsed into a sentence of this size with so many variables. -/
  | parsed (tokens size vars : Nat)
  /-- A sentence was evaluated under an enumerated model. -/
  | evaluated (model : Model) (value : Bool)
  /-- A sentence was evaluated under all models of so many variables. -/
  | enumerated (models vars : Nat)
  /-- Whether some model satisfies the sentence is about to be decided. -/
  | refuting (query : Sentence)
deriving DecidableEq, Repr

/-- Name of a connective in a report. -/
def Connective.label : Connective → String
  | .and => "And"
  | .or => "Or"
  | .implies => "Implies"
  | .iff => "Iff"

/-- Name of a token in a report. -/
def Token.label : Token → String
  | .lparen => "LParen"
  | .rparen => "RParen"
  | .neg => "Not"
  | .connective op => "Binary(" ++ op.label ++ ")"
  | .const value => "Const(" ++ truthWord value ++ ")"
  | .var name => "Var(" ++ Text.quote name ++ ")"

/-- Name of the kind of a token in a report. -/
def Token.Kind.label : Token.Kind → String
  | .lparen => "Open"
  | .rparen => "Close"
  | .neg => "Not"
  | .connective op => "Binary(" ++ op.label ++ ")"
  | .const => "Const"
  | .var => "Var"

namespace Event

/-- Level of the report. -/
def level : Event → Level
  | .parsed .. | .enumerated .. | .refuting _ => .debug
  | .lexed .. | .reached .. | .evaluated .. => .trace

/-- The part of the library that reports. -/
def source : Event → String
  | .lexed .. => "proplogic::lexer"
  | .reached .. | .parsed .. => "proplogic::parser"
  | .evaluated .. | .enumerated .. | .refuting _ => "proplogic::sat"

/-- Text of the report. -/
def message : Event → String
  | .lexed text count => "lex(" ++ Text.quote text ++ ") -> " ++ toString count ++ " tokens"
  | .reached token previous =>
    "token " ++ token.label ++ " after " ++ (previous.map Token.Kind.label).getD "None"
  | .parsed tokens size vars =>
    "Parsed " ++ toString tokens ++ " tokens into a sentence of size " ++ toString size ++
      " with " ++ toString vars ++ " variables"
  | .evaluated model value => model.render ++ " -> " ++ truthWord value
  | .enumerated models vars =>
    "Enumerated " ++ toString models ++ " models over " ++ toString vars ++ " variables"
  | .refuting query => "Checking " ++ query.render ++ " for unsatisfiability"

/-- The line of the report: level, source and text. -/
def line (e : Event) : String := e.level.name ++ " " ++ e.source ++ " " ++ e.message

end Event

end Sentential
