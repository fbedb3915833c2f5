import Sentential.Proofs.Semantics.Results
import Sentential.Proofs.Semantics.Truth

/-!
# Validity and satisfiability over all models

The questions about a sentence look at the models over its variables alone. A truth value
occurs there exactly if some valuation gives it, hence exactly if some model does that binds
the variables of the sentence. So every sentence falls into one of three classes.
-/

namespace Sentential.Sentence

/-! ### Values over all models -/

/-- The enumerated models bind the variables of the sentence. -/
theorem binds_of_mem_models {s : Sentence} {m : Model} (h : m ∈ s.models.toList) : m.Binds s :=
  Enumeration.isSome_get?_of_mem_toList h

/-- A sentence has a value in every model that is enumerated for it. -/
theorem eval_of_mem_models {s : Sentence} {m : Model} (h : m ∈ s.models.toList) :
    s.eval m = .ok (s.holds m) := by
  have evaluated := eval_of_binds (binds_of_mem_models h)
  rw [holds_of_eval evaluated]
  exact evaluated

/-- Whatever a scan looks for, it reports values that the sentence has in the models. -/
theorem eval_of_mem_events {α : Type} {s : Sentence} {visit : α → Model → Bool → ForInStep α}
    {acc : α} {event : Event} (h : event ∈ (s.scan visit acc s.models).events) :
    ∃ m value, event = .evaluated m value ∧ s.eval m = .ok value := by
  rw [(yields_scan s visit acc s.models).events_eq, List.mem_map] at h
  obtain ⟨result, hresult, rfl⟩ := h
  have listed := (prefix_visitAll visit acc (s.results s.models)).mem hresult
  obtain ⟨m, hm, rfl⟩ := List.mem_map.1 listed
  exact ⟨m, s.holds m, rfl, eval_of_mem_models hm⟩

private theorem exists_mem_results_iff (s : Sentence) (b : Bool) :
    (∃ result ∈ s.results s.models, result.2 = b) ↔ ∃ value, s.truth value = b := by
  constructor
  · rintro ⟨result, hresult, hb⟩
    obtain ⟨m, hm, rfl⟩ := List.mem_map.1 hresult
    refine ⟨m.valuation, ?_⟩
    rw [← holds_of_eval (eval_of_binds (binds_of_mem_models hm))]
    exact hb
  · rintro ⟨value, hb⟩
    obtain ⟨m, hm, hagree⟩ := Enumeration.exists_mem_toList s.vars value
    have evaluated : s.eval m = .ok (s.truth value) :=
      eval_eq_truth fun name hname ↦ hagree name (mem_vars.2 hname)
    refine ⟨(m, s.holds m), List.mem_map.2 ⟨m, hm, rfl⟩, ?_⟩
    rw [holds_of_eval evaluated]
    exact hb

/-- Some enumerated model satisfies a sentence exactly if some valuation does. -/
theorem any_results_iff (s : Sentence) :
    (s.results s.models).any (·.2) = true ↔ ∃ value, s.truth value = true := by
  rw [List.any_eq_true]
  exact s.exists_mem_results_iff true

private theorem all_results_iff (s : Sentence) :
    (s.results s.models).all (·.2) = true ↔ ¬ ∃ value, s.truth value = false := by
  rw [← s.exists_mem_results_iff false, List.all_eq_true]
  simp

private theorem exists_model_eval_iff (s : Sentence) (b : Bool) :
    (∃ m : Model, m.Binds s ∧ s.eval m = .ok b) ↔ ∃ value, s.truth value = b := by
  constructor
  · rintro ⟨m, hm, hb⟩
    rw [eval_of_binds hm] at hb
    exact ⟨m.valuation, Except.ok.inj hb⟩
  · rintro ⟨value, rfl⟩
    obtain ⟨m, hm, -, evaluated, -⟩ := exists_model_eval s s value
    exact ⟨m, hm, evaluated⟩

/-! ### The answers -/

/-- A sentence is satisfiable exactly if it is true under some valuation. -/
theorem isSatisfiable_iff_truth (s : Sentence) :
    s.isSatisfiable = true ↔ ∃ value, s.truth value = true := by
  rw [isSatisfiable_eq_any, any_results_iff]

/-- A sentence is valid exactly if it is true under every valuation. -/
theorem isValid_iff_truth (s : Sentence) :
    s.isValid = true ↔ ∀ value, s.truth value = true := by
  rw [isValid_eq_all, all_results_iff]
  simp

/-- A sentence is satisfiable exactly if it is true in some model. -/
theorem isSatisfiable_iff (s : Sentence) :
    s.isSatisfiable = true ↔ ∃ m : Model, m.Binds s ∧ s.eval m = .ok true := by
  rw [isSatisfiable_iff_truth, exists_model_eval_iff]

/-- A sentence is valid exactly if it is false in no model. -/
theorem isValid_iff (s : Sentence) :
    s.isValid = true ↔ ¬ ∃ m : Model, m.Binds s ∧ s.eval m = .ok false := by
  rw [isValid_iff_truth, exists_model_eval_iff]
  simp

/-- A sentence is unsatisfiable exactly if it is not satisfiable. -/
theorem isUnsatisfiable_eq (s : Sentence) : s.isUnsatisfiable = !s.isSatisfiable := by
  rw [isUnsatisfiable, s.yields_isUnsatisfiableM.value_eq, isSatisfiable_eq_any]

/-- A sentence is contingent exactly if it is satisfiable but not valid. -/
theorem isContingent_eq (s : Sentence) : s.isContingent = (!s.isValid && s.isSatisfiable) := by
  rw [isContingent, s.yields_isContingentM.value_eq, isValid_eq_all, isSatisfiable_eq_any]

/-- Every valid sentence is satisfiable, since the enumeration is never empty. -/
theorem isSatisfiable_of_isValid {s : Sentence} (h : s.isValid = true) :
    s.isSatisfiable = true := by
  rw [isValid_iff_truth] at h
  rw [isSatisfiable_iff_truth]
  exact ⟨fun _ ↦ true, h _⟩

private theorem not_exists_eval_false_iff (s : Sentence) :
    (¬ ∃ m : Model, m.Binds s ∧ s.eval m = .ok false) ↔
      ∀ m : Model, m.Binds s → s.eval m = .ok true := by
  constructor
  · intro h m hm
    rw [eval_of_binds hm]
    cases htruth : s.truth m.valuation with
    | true => rfl
    | false => exact absurd ⟨m, hm, by rw [eval_of_binds hm, htruth]⟩ h
  · rintro h ⟨m, hm, hfalse⟩
    rw [h m hm] at hfalse
    cases hfalse

/-- The answers about a sentence speak of all models that bind its variables: it is valid if
true in all of them, satisfiable if true in some, unsatisfiable if true in none, and
contingent if true in some and false in some. Exactly one of valid, contingent and
unsatisfiable applies. The sentence has a value in every enumerated model, and a scan reports
no other values. -/
theorem classification_iff_models (s : Sentence) :
    (s.isValid = true ↔ ∀ m : Model, m.Binds s → s.eval m = .ok true) ∧
    (s.isSatisfiable = true ↔ ∃ m : Model, m.Binds s ∧ s.eval m = .ok true) ∧
    (s.isUnsatisfiable = true ↔ ¬ ∃ m : Model, m.Binds s ∧ s.eval m = .ok true) ∧
    (s.isContingent = true ↔ (∃ m : Model, m.Binds s ∧ s.eval m = .ok true) ∧
      ∃ m : Model, m.Binds s ∧ s.eval m = .ok false) ∧
    [s.isValid, s.isContingent, s.isUnsatisfiable].count true = 1 ∧
    (∀ m ∈ s.models.toList, ∃ value, s.eval m = .ok value) ∧
    ∀ (α : Type) (visit : α → Model → Bool → ForInStep α) (acc : α),
      ∀ event ∈ (s.scan visit acc s.models).events,
        ∃ m value, event = .evaluated m value ∧ s.eval m = .ok value := by
  refine ⟨?_, s.isSatisfiable_iff, ?_, ?_, ?_, fun m hm ↦ ⟨_, eval_of_mem_models hm⟩,
    fun α visit acc event hevent ↦ eval_of_mem_events hevent⟩
  · rw [isValid_iff, not_exists_eval_false_iff]
  · rw [isUnsatisfiable_eq, Bool.not_eq_true', ← isSatisfiable_iff, Bool.not_eq_true]
  · rw [isContingent_eq, Bool.and_eq_true, isSatisfiable_iff, Bool.not_eq_true',
      ← Bool.not_eq_true, isValid_iff, not_not, and_comm]
  · rw [isContingent_eq, isUnsatisfiable_eq]
    have implied := isSatisfiable_of_isValid (s := s)
    cases hvalid : s.isValid with
    | true => rw [implied hvalid]; rfl
    | false => cases s.isSatisfiable <;> rfl

end Sentential.Sentence
