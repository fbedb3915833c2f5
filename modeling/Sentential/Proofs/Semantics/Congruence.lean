import Sentential.Proofs.Semantics.Entailment

/-!
# Entailment as an order, equivalence as a congruence

Entailment compares truth values under all valuations, whatever variables the two sentences have.
So it is reflexive and transitive, and equivalent sentences can take each other's place in any
larger sentence, although the larger one may gain or lose variables thereby.
-/

namespace Sentential

/-! ### Sentences with holes -/

/-- A sentence in which any number of places are left open. -/
inductive Context where
  | hole
  | const (value : Bool)
  | var (name : String)
  | neg (body : Context)
  | binary (op : Connective) (lhs rhs : Context)
deriving DecidableEq, Repr

/-- The sentence with the same sentence in all open places. -/
def Context.fill : Context → Sentence → Sentence
  | .hole, s => s
  | .const value, _ => .const value
  | .var name, _ => .var name
  | .neg body, s => .neg (body.fill s)
  | .binary op lhs rhs, s => .binary op (lhs.fill s) (rhs.fill s)

namespace Sentence

variable {a b c : Sentence}

private theorem truth_fill_congr {value : String → Bool} (h : a.truth value = b.truth value)
    (context : Context) : (context.fill a).truth value = (context.fill b).truth value := by
  induction context with
  | hole => exact h
  | const value => rfl
  | var name => rfl
  | neg body ih => exact congrArg (!·) ih
  | binary op lhs rhs ihl ihr =>
    rw [Context.fill, Context.fill, truth_binary, truth_binary, ihl, ihr]

/-! ### Order and congruence -/

/-- Every sentence entails itself. -/
theorem entails_refl (a : Sentence) : a.entails a = true :=
  (entails_iff_truth a a).2 fun _ ha ↦ ha

/-- What an entailed sentence entails is entailed. -/
theorem entails_trans (hab : a.entails b = true) (hbc : b.entails c = true) :
    a.entails c = true := by
  rw [entails_iff_truth] at hab hbc ⊢
  intro value ha
  exact hbc value (hab value ha)

/-- Equivalent sentences fill the open places alike. -/
theorem equivalent_fill (h : a.equivalent b = true) (context : Context) :
    (context.fill a).equivalent (context.fill b) = true := by
  rw [equivalent_iff_truth] at h ⊢
  intro value
  exact truth_fill_congr (h value) context

/-- Equivalent sentences are both valid or both not. -/
theorem isValid_congr (h : a.equivalent b = true) : a.isValid = b.isValid := by
  rw [equivalent_iff_truth] at h
  rw [Bool.eq_iff_iff, isValid_iff_truth, isValid_iff_truth]
  simp only [h]

/-- Equivalent sentences are both satisfiable or both not. -/
theorem isSatisfiable_congr (h : a.equivalent b = true) : a.isSatisfiable = b.isSatisfiable := by
  rw [equivalent_iff_truth] at h
  rw [Bool.eq_iff_iff, isSatisfiable_iff_truth, isSatisfiable_iff_truth]
  simp only [h]

/-- Entailment is reflexive and transitive. Putting equivalent sentences into the open places of
another sentence gives equivalent sentences, which are classified alike. The sentences need not
have the same variables. -/
theorem entails_preorder_and_equivalent_congruence (a b c : Sentence) (context : Context) :
    a.entails a = true ∧
    (a.entails b = true → b.entails c = true → a.entails c = true) ∧
    (a.equivalent b = true →
      (context.fill a).equivalent (context.fill b) = true ∧
      (context.fill a).isValid = (context.fill b).isValid ∧
      (context.fill a).isSatisfiable = (context.fill b).isSatisfiable ∧
      (context.fill a).isUnsatisfiable = (context.fill b).isUnsatisfiable ∧
      (context.fill a).isContingent = (context.fill b).isContingent) := by
  refine ⟨entails_refl a, entails_trans, ?_⟩
  intro h
  have filled := equivalent_fill h context
  have valid := isValid_congr filled
  have satisfiable := isSatisfiable_congr filled
  refine ⟨filled, valid, satisfiable, ?_, ?_⟩
  · rw [isUnsatisfiable_eq, satisfiable, isUnsatisfiable_eq]
  · rw [isContingent_eq, valid, satisfiable, isContingent_eq]

/-- A chain of entailments between sentences of different variables, and a context with two open
places that loses a variable when one sentence is put for the other. -/
theorem entails_preorder_and_equivalent_congruence_of_other_variables :
    let both := binary .and (var "x") (var "y")
    let either := binary .or (var "x") (var "w")
    let any := binary .or either (var "z")
    let idle := binary .and (var "x") (binary .or (var "y") (neg (var "y")))
    let context := Context.binary .iff (.neg .hole) (.binary .implies (.var "z") .hole)
    (both.entails either = true ∧ either.entails any = true ∧ both.entails any = true) ∧
    "y" ∈ (context.fill idle).vars ∧ "y" ∉ (context.fill (var "x")).vars ∧
    idle.equivalent (var "x") = true ∧
      (context.fill idle).equivalent (context.fill (var "x")) = true ∧
      (context.fill idle).isValid = (context.fill (var "x")).isValid ∧
      (context.fill idle).isSatisfiable = (context.fill (var "x")).isSatisfiable ∧
      (context.fill idle).isUnsatisfiable = (context.fill (var "x")).isUnsatisfiable ∧
      (context.fill idle).isContingent = (context.fill (var "x")).isContingent := by
  intro both either any idle context
  have first : both.entails either = true := by decide +kernel
  have second : either.entails any = true := by decide +kernel
  have equivalent : idle.equivalent (var "x") = true := by decide +kernel
  exact ⟨⟨first, second,
      (entails_preorder_and_equivalent_congruence both either any context).2.1 first second⟩,
    by decide, by decide, equivalent,
    (entails_preorder_and_equivalent_congruence idle (var "x") any context).2.2 equivalent⟩

end Sentence

end Sentential
