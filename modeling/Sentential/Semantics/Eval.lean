import Sentential.Model.Basic
import Sentential.Sentence.Basic

/-!
# Evaluation

The truth value of a sentence under a model. Both operands of a connective are
always evaluated, the left one first, so an unbound variable is an error even
where it could not change the value.
-/

namespace Sentential

/-- A failed evaluation. -/
inductive EvalError where
  /-- The model gives the variable no value. -/
  | unbound (name : String)
deriving DecidableEq, Repr

/-- Message of the error. -/
def EvalError.message : EvalError → String
  | .unbound name => "variable '" ++ name ++ "' has no value in the model"

namespace Sentence

/-- Truth value of the sentence under a model. -/
def eval (m : Model) : Sentence → Except EvalError Bool
  | .const value => .ok value
  | .var name =>
    match m.get? name with
    | some value => .ok value
    | none => .error (.unbound name)
  | .neg body =>
    match body.eval m with
    | .ok value => .ok (!value)
    | .error e => .error e
  | .binary op lhs rhs =>
    match lhs.eval m with
    | .error e => .error e
    | .ok a =>
      match rhs.eval m with
      | .error e => .error e
      | .ok b => .ok (op.apply a b)

/-- Whether the sentence has the value `true` under a model. For a model that binds
all its variables this is the value of the sentence. -/
def holds (m : Model) (s : Sentence) : Bool :=
  match s.eval m with
  | .ok value => value
  | .error _ => false

/-- A sentence that has a value holds exactly if that value is `true`. -/
theorem holds_of_eval {m : Model} {s : Sentence} {value : Bool} (h : s.eval m = .ok value) :
    s.holds m = value := by
  rw [holds, h]

end Sentence

end Sentential
