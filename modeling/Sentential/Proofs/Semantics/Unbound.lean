import Mathlib.Data.List.Find
import Sentential.Proofs.Semantics.Truth

/-!
# Evaluation under any model

A model need not bind all variables of a sentence. Evaluation comes to the leaves from left
to right and fails at the first unbound one, which bears the first unbound name of the
variables in order of discovery, although those are listed without repeats. So evaluation
depends on nothing but what the model says about the variables.
-/

namespace Sentential

/-- The first variable of the sentence, in order of discovery, to which the model gives no
value. -/
def Model.firstUnbound? (m : Model) (s : Sentence) : Option String :=
  s.vars.find? fun name ↦ (m.get? name).isNone

namespace Sentence

/-- Evaluation fails exactly if some variable is unbound, and then names the first such one. -/
theorem eval_eq (s : Sentence) (m : Model) :
    s.eval m = match m.firstUnbound? s with
      | some name => .error (.unbound name)
      | none => .ok (s.truth m.valuation) := by
  rw [Model.firstUnbound?, find?_vars]
  induction s with
  | const value => rfl
  | var name =>
    cases h : m.get? name with
    | some value => simp [eval, names, truth, Model.valuation, h]
    | none => simp [eval, names, h]
  | neg body ih =>
    rw [eval, ih, names]
    cases body.names.find? fun name ↦ (m.get? name).isNone <;> rfl
  | binary op lhs rhs ihl ihr =>
    rw [eval, ihl, ihr, names, List.find?_append, truth_binary]
    cases lhs.names.find? fun name ↦ (m.get? name).isNone with
    | some name => rfl
    | none => cases rhs.names.find? fun name ↦ (m.get? name).isNone <;> rfl

/-- The first unbound variable stands behind bound ones. -/
theorem firstUnbound?_eq_some_iff {m : Model} {s : Sentence} {name : String} :
    m.firstUnbound? s = some name ↔ m.get? name = none ∧
      ∃ before after, s.vars = before ++ name :: after ∧ ∀ x ∈ before, (m.get? x).isSome := by
  rw [Model.firstUnbound?, List.find?_eq_some_iff_append, Option.isNone_iff_eq_none]
  simp

/-- No variable is unbound exactly if the model binds the variables of the sentence. -/
theorem firstUnbound?_eq_none_iff {m : Model} {s : Sentence} :
    m.firstUnbound? s = none ↔ m.Binds s := by
  simp [Model.firstUnbound?, Model.Binds, Option.isSome_iff_ne_none]

/-- Models that agree on the variables leave the same variable unbound first. -/
theorem firstUnbound?_congr {m m' : Model} {s : Sentence}
    (h : ∀ name ∈ s.vars, m'.get? name = m.get? name) :
    m'.firstUnbound? s = m.firstUnbound? s := by
  apply List.find?_congr
  intro name hname
  rw [h name hname]

/-- A model that binds all variables of a sentence gives it its classical truth value. Any other
model gives the error that names the first variable which it leaves unbound, whether or not
that variable matters for the value. So models that say the same about the variables, a missing
value included, give the same. -/
theorem eval_eq_truth_or_first_unbound (s : Sentence) (m : Model) :
    (m.Binds s → s.eval m = .ok (s.truth m.valuation)) ∧
    (¬ m.Binds s → ∃ before name after, s.vars = before ++ name :: after ∧
      (∀ x ∈ before, (m.get? x).isSome) ∧ m.get? name = none ∧
      s.eval m = .error (.unbound name)) ∧
    ∀ m' : Model, (∀ name ∈ s.vars, m'.get? name = m.get? name) → s.eval m' = s.eval m := by
  refine ⟨eval_of_binds, ?_, ?_⟩
  · intro h
    rw [← firstUnbound?_eq_none_iff] at h
    obtain ⟨name, hname⟩ := Option.ne_none_iff_exists'.1 h
    obtain ⟨unbound, before, after, hsplit, hbefore⟩ := firstUnbound?_eq_some_iff.1 hname
    refine ⟨before, name, after, hsplit, hbefore, unbound, ?_⟩
    rw [eval_eq, hname]
  · intro m' h
    have same := firstUnbound?_congr h
    cases hm : m.firstUnbound? s with
    | some name => rw [eval_eq, eval_eq, same, hm]
    | none =>
      have bound := firstUnbound?_eq_none_iff.1 hm
      rw [eval_of_binds bound]
      apply eval_eq_truth
      intro name hname
      rw [h name (mem_vars.2 hname)]
      exact Model.get?_eq_valuation (bound name (mem_vars.2 hname))

/-- Where `true or y` is asked for with and without a value for `x`, the missing `y` is reported,
although it makes no difference; a value for `y` lets `true or y` be true. -/
theorem eval_eq_truth_or_first_unbound_of_disjunction :
    let s := binary .or (const true) (var "y")
    let bound := Model.ofList [("x", true), ("y", false)]
    let other := Model.ofList [("x", true)]
    (bound.Binds s ∧ s.eval bound = .ok (s.truth bound.valuation)) ∧
    (¬ other.Binds s ∧ ∃ before name after, s.vars = before ++ name :: after ∧
      (∀ x ∈ before, (other.get? x).isSome) ∧ other.get? name = none ∧
      s.eval other = .error (.unbound name)) ∧
    (∀ name ∈ s.vars, Model.empty.get? name = other.get? name) ∧
      s.eval Model.empty = s.eval other := by
  intro s bound other
  have binds : bound.Binds s := by decide
  have lacks : ¬ other.Binds s := by decide
  have agree : ∀ name ∈ s.vars, Model.empty.get? name = other.get? name := by decide
  exact ⟨⟨binds, (eval_eq_truth_or_first_unbound s bound).1 binds⟩,
    ⟨lacks, (eval_eq_truth_or_first_unbound s other).2.1 lacks⟩, agree,
    (eval_eq_truth_or_first_unbound s other).2.2 Model.empty agree⟩

end Sentence

end Sentential
