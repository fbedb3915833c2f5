import Sentential.Proofs.Model.Lexicographic
import Sentential.Proofs.Semantics.Classification

/-!
# Listed values and satisfying models

The values of a sentence and the models that satisfy it are listed in one order: that of all
models which bind exactly its variables, in lexicographic order. The first satisfying model
and their number can be read off these lists.
-/

namespace Sentential.Sentence

/-- The models of a sentence are all that bind exactly its variables, in lexicographic order. -/
theorem lexicographic_models (s : Sentence) : Lexicographic s.vars s.models.toList :=
  Enumeration.lexicographic_toList s.nodup_vars

/-- There is one model of a sentence for each way to fill a row of its variables. -/
theorem length_toList_models (s : Sentence) :
    s.models.toList.length = Nat.pow 2 s.vars.length :=
  Enumeration.length_toList_ofNames s.vars

/-- The enumeration of a sentence gives its values in its models. -/
theorem enumerate_eq (s : Sentence) : s.enumerate = s.models.toList.map fun m ↦ s.holds m := by
  rw [enumerate_eq_map, results, List.map_map]
  rfl

/-- The satisfying models are those in which the sentence holds. -/
theorem allSat_eq (s : Sentence) : s.allSat = s.models.toList.filter fun m ↦ s.holds m := by
  rw [allSat_eq_filter, results, List.filter_map, List.map_map]
  exact List.map_id _

/-- The satisfying models are counted by the true values. -/
theorem satCount_eq_count_enumerate (s : Sentence) : s.satCount = s.enumerate.count true := by
  rw [satCount_eq_countP, enumerate_eq_map, List.count, List.countP_map]
  apply List.countP_congr
  intro result _
  simp

/-- The satisfying models are counted by their list. -/
theorem satCount_eq_length_allSat (s : Sentence) : s.satCount = s.allSat.length := by
  rw [satCount_eq_countP, allSat_eq_filter, List.length_map, List.countP_eq_length_filter]

/-- The first satisfying model heads the list of satisfying models. -/
theorem oneSat_eq_head?_allSat (s : Sentence) : s.oneSat = s.allSat.head? := by
  rw [oneSat, s.yields_oneSatM.value_eq, allSat_eq_filter, List.head?_map, List.head?_filter]

/-- In a model of the sentence, holding is being evaluated to `true`. -/
theorem holds_iff_eval {s : Sentence} {m : Model} (h : m ∈ s.models.toList) :
    s.holds m = true ↔ s.eval m = .ok true := by
  rw [eval_of_mem_models h, Except.ok.injEq]

/-- A model is among the satisfying ones exactly if it binds the variables of the sentence, no
other names, and makes the sentence true. -/
theorem mem_allSat_iff (s : Sentence) (m : Model) :
    m ∈ s.allSat ↔ m.BindsExactly s.vars ∧ s.eval m = .ok true := by
  rw [allSat_eq, List.mem_filter, ← s.lexicographic_models.complete]
  constructor
  · rintro ⟨hm, hholds⟩
    exact ⟨hm, (holds_iff_eval hm).1 hholds⟩
  · rintro ⟨hm, heval⟩
    exact ⟨hm, (holds_iff_eval hm).2 heval⟩

/-- The satisfying models are in lexicographic order. -/
theorem pairwise_allSat (s : Sentence) : s.allSat.Pairwise (Model.Precedes s.vars) := by
  rw [allSat_eq]
  exact s.lexicographic_models.ordered.filter _

/-- The number `k` of the enumerated values is the value in model number `k`. -/
theorem enumerate_getElem? {s : Sentence} {m : Model} {k : Nat}
    (h : s.models.toList[k]? = some m) :
    ∃ value, s.eval m = .ok value ∧ s.enumerate[k]? = some value := by
  refine ⟨s.holds m, eval_of_mem_models (List.mem_of_getElem? h), ?_⟩
  rw [enumerate_eq, List.getElem?_map, h]
  rfl

/-- Let all models that bind exactly the variables of a sentence be listed in lexicographic
order, which is possible in one way only. Then the enumerated values are those in the models
of this list, one by one, and the satisfying models are its models that make the sentence
true, in the same order. They start with the first satisfying model, if there is one, and are
as many as counted, which is how often the enumeration gives `true`. -/
theorem enumerate_and_allSat_of_lexicographic (s : Sentence) :
    (∃ models, Lexicographic s.vars models ∧
      (∀ others, Lexicographic s.vars others → others = models) ∧
      models.length = Nat.pow 2 s.vars.length ∧
      ∀ (k : Nat) (m : Model), models[k]? = some m →
        ∃ value, s.eval m = .ok value ∧ s.enumerate[k]? = some value) ∧
    s.enumerate.length = Nat.pow 2 s.vars.length ∧
    (∀ m, m ∈ s.allSat ↔ m.BindsExactly s.vars ∧ s.eval m = .ok true) ∧
    s.allSat.Pairwise (Model.Precedes s.vars) ∧
    s.allSat.Nodup ∧
    s.oneSat = s.allSat.head? ∧
    (s.oneSat = none ↔ s.allSat = []) ∧
    s.satCount = s.allSat.length ∧
    s.satCount = s.enumerate.count true := by
  refine ⟨?_, ?_, s.mem_allSat_iff, s.pairwise_allSat,
    Model.nodup_of_pairwise_precedes s.pairwise_allSat, s.oneSat_eq_head?_allSat, ?_,
    s.satCount_eq_length_allSat, s.satCount_eq_count_enumerate⟩
  · refine ⟨s.models.toList, s.lexicographic_models, ?_, s.length_toList_models, ?_⟩
    · intro others hothers
      exact s.lexicographic_models.unique hothers
    · intro k m h
      exact enumerate_getElem? h
  · rw [enumerate_eq, List.length_map, length_toList_models]
  · rw [oneSat_eq_head?_allSat, List.head?_eq_none_iff]

end Sentential.Sentence
