import Sentential.Proofs.Semantics.Classification

/-!
# Entailment and equivalence over all models

The checks enumerate the models over the variables at hand. What they decide is a property
of all valuations, hence of all models that bind these variables, since evaluation looks at
no other names.
-/

namespace Sentential.Sentence

/-! ### What the checks yield -/

/-- Entailment reports its query and then looks for the first model that refutes it. -/
theorem yields_entailsM (a b : Sentence) :
    (a.entailsM b).Yields
      (!((a.counterexample b).results (a.counterexample b).models).any (·.2))
      (.refuting (a.counterexample b) ::
        (upTo true ((a.counterexample b).results (a.counterexample b).models)).map report) :=
  (JournalM.Yields.record (.refuting (a.counterexample b))).bind
    (a.counterexample b).yields_isUnsatisfiableM

/-- Equivalence asks for both entailments, and for the second only after the first holds. -/
theorem yields_equivalentM (a b : Sentence) :
    (a.equivalentM b).Yields (a.entails b && b.entails a)
      ((a.entailsM b).events ++ if a.entails b then (b.entailsM a).events else []) := by
  refine (yields_entailsM a b).observed.bind ?_
  change JournalM.Yields (if a.entails b then b.entailsM a else pure false) _ _
  cases a.entails b with
  | true => exact (yields_entailsM b a).observed
  | false => exact .pure false

/-! ### Entailment and equivalence -/

/-- Entailment holds exactly if the truth of the one sentence carries over to the other under
every valuation. -/
theorem entails_iff_truth (a b : Sentence) :
    a.entails b = true ↔ ∀ value, a.truth value = true → b.truth value = true := by
  have refuted := any_results_iff (a.counterexample b)
  rw [entails, (yields_entailsM a b).value_eq, Bool.not_eq_true', ← Bool.not_eq_true, refuted]
  constructor
  · intro h value ha
    cases hb : b.truth value with
    | true => rfl
    | false => exact absurd ⟨value, by simp [counterexample, truth, ha, hb]⟩ h
  · rintro h ⟨value, hvalue⟩
    simp only [counterexample, truth, Bool.and_eq_true, Bool.not_eq_true'] at hvalue
    rw [h value hvalue.1] at hvalue
    cases hvalue.2

/-- Equivalence holds exactly if both sentences have the same truth value under every
valuation. -/
theorem equivalent_iff_truth (a b : Sentence) :
    a.equivalent b = true ↔ ∀ value, a.truth value = b.truth value := by
  rw [equivalent, (yields_equivalentM a b).value_eq, Bool.and_eq_true, entails_iff_truth,
    entails_iff_truth]
  constructor
  · rintro ⟨forward, backward⟩ value
    rw [Bool.eq_iff_iff]
    exact ⟨forward value, backward value⟩
  · intro h
    constructor
    · intro value ha
      rw [← h value, ha]
    · intro value hb
      rw [h value, hb]

/-- A sentence entails another exactly if the other is true in every model that binds the
variables of both and in which the first is true; they are equivalent exactly if they have
the same value in every such model. -/
theorem entails_and_equivalent_iff_models (a b : Sentence) :
    (a.entails b = true ↔ ∀ m : Model, m.Binds a → m.Binds b →
      a.eval m = .ok true → b.eval m = .ok true) ∧
    (a.equivalent b = true ↔ ∀ m : Model, m.Binds a → m.Binds b → a.eval m = b.eval m) := by
  constructor
  · rw [entails_iff_truth]
    constructor
    · intro h m ha hb htrue
      rw [eval_of_binds ha] at htrue
      rw [eval_of_binds hb, h m.valuation (Except.ok.inj htrue)]
    · intro h value htrue
      obtain ⟨m, ha, hb, evala, evalb⟩ := exists_model_eval a b value
      have carried := h m ha hb (by rw [evala, htrue])
      rw [evalb] at carried
      exact Except.ok.inj carried
  · rw [equivalent_iff_truth]
    constructor
    · intro h m ha hb
      rw [eval_of_binds ha, eval_of_binds hb, h]
    · intro h value
      obtain ⟨m, ha, hb, evala, evalb⟩ := exists_model_eval a b value
      have same := h m ha hb
      rw [evala, evalb] at same
      exact Except.ok.inj same

end Sentential.Sentence
