import Mathlib.Data.List.Induction
import Mathlib.Data.List.Sort
import Sentential.Model.Basic

/-!
# What a model binds

A model is known by the values that it gives to names. The model of a list of bindings gives
each name the value of its last binding.
-/

namespace Sentential.Model

/-! ### Models are equal if they give the same values -/

/-- The bindings of a model are the values that it gives. -/
theorem mem_bindings_iff {m : Model} {name : String} {value : Bool} :
    (name, value) ∈ m.bindings ↔ m.get? name = some value := by
  rw [get?, List.lookup_eq_some_iff]
  constructor
  · intro h
    obtain ⟨before, after, hsplit⟩ := List.append_of_mem h
    refine ⟨before, after, hsplit, ?_⟩
    intro binding hbinding
    have sorted := m.sorted
    rw [hsplit] at sorted
    have less := (List.pairwise_append.1 sorted).2.2 binding hbinding _ List.mem_cons_self
    simpa using (String.ne_of_lt less).symm
  · rintro ⟨before, after, hsplit, -⟩
    rw [hsplit]
    exact List.mem_append_right _ List.mem_cons_self

/-- Models with the same bindings are equal. -/
theorem ext_bindings {a b : Model} (h : a.bindings = b.bindings) : a = b := by
  cases a
  cases b
  cases h
  rfl

/-- Models that give the same values to all names are equal. -/
theorem ext_get? {a b : Model} (h : ∀ name, a.get? name = b.get? name) : a = b := by
  have irrefl : Std.Irrefl fun a b : String × Bool ↦ a.1 < b.1 :=
    ⟨fun binding ↦ String.lt_irrefl binding.1⟩
  have antisymm : Std.Antisymm fun a b : String × Bool ↦ a.1 < b.1 :=
    ⟨fun _ _ hab hba ↦ absurd hba (String.lt_asymm hab)⟩
  apply ext_bindings
  apply a.sorted.eq_of_mem_iff b.sorted
  rintro ⟨name, value⟩
  rw [mem_bindings_iff, mem_bindings_iff, h]

/-! ### The model of a list of bindings -/

/-- One more binding at the end is one more insertion. -/
theorem ofList_concat (bindings : List (String × Bool)) (binding : String × Bool) :
    ofList (bindings ++ [binding]) = (ofList bindings).insert binding.1 binding.2 := by
  rw [ofList, List.foldl_append]
  rfl

/-- The last binding of a name wins. -/
theorem get?_ofList (bindings : List (String × Bool)) (name : String) :
    (ofList bindings).get? name = bindings.reverse.lookup name := by
  induction bindings using List.reverseRecOn with
  | nil => rfl
  | append_singleton bindings binding ih =>
    rw [ofList_concat, get?_insert, List.reverse_concat, List.lookup_cons, ih]
    by_cases h : name = binding.1
    · simp [h]
    · simp [h, beq_eq_false_iff_ne.2 h]

/-- A first binding counts where the others leave the name unbound. -/
theorem get?_ofList_cons (binding : String × Bool) (bindings : List (String × Bool))
    (name : String) :
    (ofList (binding :: bindings)).get? name =
      ((ofList bindings).get? name).or (if name = binding.1 then some binding.2 else none) := by
  rw [get?_ofList, get?_ofList, List.reverse_cons, List.lookup_append, List.lookup_cons]
  by_cases h : name = binding.1
  · simp [h]
  · simp [h, beq_eq_false_iff_ne.2 h]

/-- A name is bound exactly if it has a binding. -/
theorem isSome_get?_ofList_iff {bindings : List (String × Bool)} {name : String} :
    ((ofList bindings).get? name).isSome = true ↔ name ∈ bindings.map Prod.fst := by
  induction bindings with
  | nil => simp [ofList]
  | cons binding bindings ih =>
    rw [get?_ofList_cons, Option.isSome_or, Bool.or_eq_true, ih, List.map_cons, List.mem_cons]
    by_cases h : name = binding.1 <;> simp [h]

/-- A name without bindings has no value. -/
theorem get?_ofList_eq_none {bindings : List (String × Bool)} {name : String}
    (h : name ∉ bindings.map Prod.fst) : (ofList bindings).get? name = none := by
  rwa [← Option.not_isSome_iff_eq_none, isSome_get?_ofList_iff]

private theorem exists_get?_ofList {bindings : List (String × Bool)} {name : String}
    (h : name ∈ bindings.map Prod.fst) :
    ∃ value, (name, value) ∈ bindings ∧ (ofList bindings).get? name = some value := by
  rw [get?_ofList]
  obtain ⟨binding, hbinding, rfl⟩ := List.mem_map.1 h
  cases hlookup : bindings.reverse.lookup binding.1 with
  | none =>
    have absent := List.lookup_eq_none_iff.1 hlookup binding (List.mem_reverse.2 hbinding)
    simp at absent
  | some value =>
    obtain ⟨before, after, hsplit, -⟩ := List.lookup_eq_some_iff.1 hlookup
    refine ⟨value, ?_, rfl⟩
    rw [← List.mem_reverse, hsplit]
    exact List.mem_append_right _ List.mem_cons_self

/-- The model of the values that a function gives to some names agrees with the function on
these names. -/
theorem get?_ofList_map {names : List String} {name : String} (value : String → Bool)
    (h : name ∈ names) :
    (ofList (names.map fun x ↦ (x, value x))).get? name = some (value name) := by
  have bound : name ∈ (names.map fun x ↦ (x, value x)).map Prod.fst := by simpa using h
  obtain ⟨found, hfound, hget⟩ := exists_get?_ofList bound
  obtain ⟨x, -, hx⟩ := List.mem_map.1 hfound
  cases hx
  exact hget

/-- A model is the model of its own bindings. -/
theorem ofList_bindings (m : Model) : ofList m.bindings = m := by
  apply ext_get?
  intro name
  by_cases h : name ∈ m.bindings.map Prod.fst
  · obtain ⟨value, hvalue, hget⟩ := exists_get?_ofList h
    rw [hget, mem_bindings_iff.1 hvalue]
  · have unbound : m.get? name = none := by
      rw [get?, List.lookup_eq_none_iff]
      intro binding hbinding
      have differ : name ≠ binding.1 := by
        rintro rfl
        exact h (List.mem_map_of_mem hbinding)
      exact bne_iff_ne.2 differ
    rw [get?_ofList_eq_none h, unbound]

/-- The names of the bindings of a model are those that it binds. -/
theorem mem_map_fst_bindings_iff {m : Model} {name : String} :
    name ∈ m.bindings.map Prod.fst ↔ (m.get? name).isSome = true := by
  rw [← isSome_get?_ofList_iff, ofList_bindings]

end Sentential.Model
