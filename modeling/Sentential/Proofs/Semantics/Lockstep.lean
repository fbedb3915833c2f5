import Sentential.Proofs.Semantics.Entailment

/-!
# Entailment beside validity

Entailment looks for a model of the premise in which the conclusion fails, validity of the
implication for a model in which the implication fails. Both go through the same models in the
same order and find opposite values in each, so they stop at the same one. Equivalence is
validity of the biconditional, although it may go through the models twice, the second time
with the names in another order.
-/

namespace Sentential.Sentence

-- The result in the same model with the opposite value.
private def opposite (result : Model × Bool) : Model × Bool := (result.1, !result.2)

private theorem upTo_map_opposite (value : Bool) (results : List (Model × Bool)) :
    upTo value (results.map opposite) = (upTo (!value) results).map opposite := by
  induction results with
  | nil => rfl
  | cons result rest ih =>
    rw [List.map_cons, upTo, upTo, ih]
    cases value <;> cases h : result.2 <;> simp [opposite, h]

private theorem all_map_opposite (results : List (Model × Bool)) :
    (results.map opposite).all (·.2) = !results.any (·.2) := by
  simp [List.all_map, List.not_any_eq_all_not, Function.comp_def, opposite]

section Lockstep

variable (a b : Sentence)

private theorem holds_implies {m : Model} (h : m ∈ (binary .implies a b).models.toList) :
    (binary .implies a b).holds m = !(a.counterexample b).holds m := by
  have binds : m.Binds (binary .implies a b) := binds_of_mem_models h
  have bindsQuery : m.Binds (a.counterexample b) := binds
  rw [holds_of_eval (eval_of_binds binds), holds_of_eval (eval_of_binds bindsQuery), truth_binary]
  exact Connective.apply_implies _ _

private theorem results_implies :
    (binary .implies a b).results (binary .implies a b).models =
      ((a.counterexample b).results (a.counterexample b).models).map opposite := by
  rw [results, results, List.map_map]
  apply List.map_congr_left
  intro m hm
  rw [holds_implies a b hm]
  rfl

/-- Entailment is validity of the implication. -/
theorem entails_eq_isValid_implies : a.entails b = (binary .implies a b).isValid := by
  rw [entails, (yields_entailsM a b).value_eq, isValid_eq_all, results_implies, all_map_opposite]

/-- Equivalence is validity of the biconditional. -/
theorem equivalent_eq_isValid_iff : a.equivalent b = (binary .iff a b).isValid := by
  rw [Bool.eq_iff_iff, equivalent_iff_truth, isValid_iff_truth]
  apply forall_congr'
  intro value
  exact beq_iff_eq.symm

end Lockstep

/-- Entailment is validity of the implication. The query of the entailment has the same models as
the implication, in the same order. Apart from the report that names the query, both report the
same beginning of these models, and in each the query and the implication have opposite values;
so both stop at the same model. Equivalence is validity of the biconditional. Its first pass goes
through the models of the biconditional, with the variables of the left sentence first; its
second pass, made if the first entailment holds, has the variables of the right sentence first. -/
theorem entails_and_implies_in_lockstep (a b : Sentence) :
    let query := binary .and a (.neg b)
    let implication := binary .implies a b
    a.entails b = implication.isValid ∧
    query.models = implication.models ∧
    (∃ visited : List (Model × Bool),
      visited.map Prod.fst <+: implication.models.toList ∧
      (∀ result ∈ visited,
        query.eval result.1 = .ok result.2 ∧ implication.eval result.1 = .ok !result.2) ∧
      (a.entailsM b).events = .refuting query :: visited.map (fun r ↦ .evaluated r.1 r.2) ∧
      implication.isValidM.events = visited.map fun r ↦ .evaluated r.1 (!r.2)) ∧
    a.equivalent b = (binary .iff a b).isValid ∧
    (a.equivalentM b).events =
      (a.entailsM b).events ++ (if a.entails b then (b.entailsM a).events else []) ∧
    query.vars = (binary .iff a b).vars ∧
    (binary .iff a b).vars = a.vars ++ b.vars.filter (· ∉ a.vars) ∧
    (binary .and b (.neg a)).vars = b.vars ++ a.vars.filter (· ∉ b.vars) := by
  intro query implication
  have begins := prefix_upTo true (query.results query.models)
  have listed := begins.map Prod.fst
  rw [map_fst_results] at listed
  refine ⟨entails_eq_isValid_implies a b, rfl,
    ⟨upTo true (query.results query.models), listed, ?_, ?_, ?_⟩,
    equivalent_eq_isValid_iff a b, (yields_equivalentM a b).events_eq, rfl, vars_binary .iff a b,
    vars_binary .and b (.neg a)⟩
  · intro result hresult
    obtain ⟨m, hm, rfl⟩ := List.mem_map.1 (begins.mem hresult)
    have opposed : implication.holds m = !query.holds m := holds_implies a b hm
    refine ⟨eval_of_mem_models hm, ?_⟩
    change implication.eval m = .ok (!query.holds m)
    rw [← opposed]
    exact eval_of_mem_models hm
  · exact (yields_entailsM a b).events_eq
  · rw [implication.yields_isValidM.events_eq, results_implies, upTo_map_opposite, List.map_map]
    rfl

end Sentential.Sentence
