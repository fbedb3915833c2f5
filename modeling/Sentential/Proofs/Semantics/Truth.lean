import Sentential.Proofs.Model.Bindings
import Sentential.Proofs.Sentence.Names
import Sentential.Semantics.Eval

/-!
# Classical truth

The truth value of a sentence under a valuation of all names, and its tie to evaluation:
under a model that binds the variables of a sentence, evaluation gives the truth value under
the valuation of that model, whatever else the model binds.
-/

namespace Sentential

/-- Truth value under a valuation of all names. -/
def Sentence.truth (value : String → Bool) : Sentence → Bool
  | .const b => b
  | .var name => value name
  | .neg body => !body.truth value
  | .binary .and lhs rhs => lhs.truth value && rhs.truth value
  | .binary .or lhs rhs => lhs.truth value || rhs.truth value
  | .binary .implies lhs rhs => !lhs.truth value || rhs.truth value
  | .binary .iff lhs rhs => lhs.truth value == rhs.truth value

namespace Model

/-- The model binds every variable of the sentence. It may bind other names too. -/
def Binds (m : Model) (s : Sentence) : Prop := ∀ name ∈ s.vars, (m.get? name).isSome

/-- Binding a sentence is checked variable by variable. -/
instance (m : Model) (s : Sentence) : Decidable (m.Binds s) :=
  inferInstanceAs (Decidable (∀ name ∈ s.vars, _))

/-- The model's values, and `false` for names that it does not bind. -/
def valuation (m : Model) (name : String) : Bool := (m.get? name).getD false

/-- A bound name has its value in the model. -/
theorem get?_eq_valuation {m : Model} {name : String} (h : (m.get? name).isSome) :
    m.get? name = some (m.valuation name) := by
  rw [valuation]
  cases hget : m.get? name with
  | some value => rfl
  | none => rw [hget] at h; cases h

end Model

namespace Sentence

/-- The truth value of a binary sentence is that of its connective. -/
theorem truth_binary (value : String → Bool) (op : Connective) (lhs rhs : Sentence) :
    (binary op lhs rhs).truth value = op.apply (lhs.truth value) (rhs.truth value) := by
  cases op with
  | and => rfl
  | or => rfl
  | implies => rfl
  | iff => exact (Connective.apply_iff _ _).symm

/-- Models that say the same about the names of a sentence give it the same value, or the same
error. -/
theorem eval_congr {s : Sentence} {m m' : Model}
    (h : ∀ name ∈ s.names, m.get? name = m'.get? name) : s.eval m = s.eval m' := by
  induction s with
  | const value => rfl
  | var name => simp only [eval, h name (List.mem_singleton_self name)]
  | neg body ih => simp only [eval, ih h]
  | binary op lhs rhs ihl ihr =>
    have left := ihl fun name hname ↦ h name (List.mem_append_left _ hname)
    have right := ihr fun name hname ↦ h name (List.mem_append_right _ hname)
    simp only [eval, left, right]

/-- Evaluation gives the truth value under a valuation that agrees with the model on the
names of the sentence. -/
theorem eval_eq_truth {s : Sentence} {m : Model} {value : String → Bool}
    (h : ∀ name ∈ s.names, m.get? name = some (value name)) :
    s.eval m = .ok (s.truth value) := by
  induction s with
  | const b => rfl
  | var name =>
    have bound := h name (List.mem_singleton_self name)
    simp only [eval, bound, truth]
  | neg body ih =>
    simp only [eval, ih h, truth]
  | binary op lhs rhs ihl ihr =>
    have left := ihl fun name hname ↦ h name (List.mem_append_left _ hname)
    have right := ihr fun name hname ↦ h name (List.mem_append_right _ hname)
    rw [truth_binary]
    simp only [eval, left, right]

/-- Evaluation under a model that binds the variables of the sentence gives the truth value
under the model's valuation. -/
theorem eval_of_binds {s : Sentence} {m : Model} (h : m.Binds s) :
    s.eval m = .ok (s.truth m.valuation) :=
  eval_eq_truth fun name hname ↦ Model.get?_eq_valuation (h name (mem_vars.2 hname))

/-- For every valuation there is a model that binds the variables of two sentences and gives
both their truth values. -/
theorem exists_model_eval (a b : Sentence) (value : String → Bool) :
    ∃ m : Model, m.Binds a ∧ m.Binds b ∧
      a.eval m = .ok (a.truth value) ∧ b.eval m = .ok (b.truth value) := by
  let m := Model.ofList ((a.vars ++ b.vars).map fun x ↦ (x, value x))
  have agrees (name : String) (h : name ∈ a.vars ++ b.vars) : m.get? name = some (value name) :=
    Model.get?_ofList_map value h
  have left (name : String) (h : name ∈ a.vars) := agrees name (List.mem_append_left _ h)
  have right (name : String) (h : name ∈ b.vars) := agrees name (List.mem_append_right _ h)
  refine ⟨m, ?_, ?_, ?_, ?_⟩
  · intro name h
    rw [left name h]
    rfl
  · intro name h
    rw [right name h]
    rfl
  · exact eval_eq_truth fun name h ↦ left name (mem_vars.2 h)
  · exact eval_eq_truth fun name h ↦ right name (mem_vars.2 h)

end Sentence

end Sentential
