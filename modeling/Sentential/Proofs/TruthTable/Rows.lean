import Sentential.Proofs.Semantics.Reports

/-!
# Rows of a truth table

A truth table is made if there are as many results as a machine word counts models. With fewer
names than a word has bits, that is one result for each model, and the rows pair all models
with all results. With more names, a machine that checks its shifts makes no table, and one
that does not makes tables that lack results for most of their models.
-/

namespace Sentential

namespace TruthTable

variable {overflow : Overflow} {names : List String} {results : List Bool} {t : TruthTable}

/-! ### Counting the models -/

private theorem toNat_one_shiftLeft (places : Nat) :
    ((1 : UInt64) <<< UInt64.ofNat places).toNat = Nat.pow 2 (places % wordBits) := by
  have reduced : places % 2 ^ 64 % 64 = places % wordBits := Nat.mod_mod_of_dvd places (by decide)
  have fits : 2 ^ (places % wordBits) < 2 ^ 64 :=
    Nat.pow_lt_pow_right (by decide) (Nat.mod_lt places (by decide))
  rw [UInt64.toNat_shiftLeft, UInt64.toNat_ofNat', reduced, UInt64.toNat_one, Nat.one_shiftLeft,
    Nat.mod_eq_of_lt fits]
  rfl

/-- The models are counted unless the machine checks the shift and it goes too far. -/
theorem modelCount?_eq (overflow : Overflow) (n : Nat) :
    modelCount? overflow n =
      if overflow = .checked ∧ wordBits ≤ n then none else some (1 <<< UInt64.ofNat n) := by
  cases overflow with
  | checked =>
    by_cases few : n < wordBits
    · simp [modelCount?, few]
    · simp [modelCount?, few, Nat.le_of_not_lt few]
  | wrapping => simp [modelCount?]

/-- The results are compared with the power of two that the word holds. -/
theorem ofResults_eq (names : List String) (results : List Bool) (overflow : Overflow) :
    ofResults names results overflow =
      if overflow = .checked ∧ wordBits ≤ names.length then .error .tooManyNames
      else if results.length = Nat.pow 2 (names.length % wordBits) then .ok ⟨names, results⟩
      else .error .wrongSize := by
  rw [ofResults, modelCount?_eq]
  by_cases many : overflow = .checked ∧ wordBits ≤ names.length
  · rw [if_pos many, if_pos many]
  · rw [if_neg many, if_neg many]
    simp only [toNat_one_shiftLeft]

/-- Where the machine counts the models right or not at all, there has to be one result for each
of them. No list has as many results as there are models if these are too many to count. -/
theorem ofResults_of_counted (counted : overflow = .checked ∨ names.length < wordBits)
    (hresults : results.length < Nat.pow 2 wordBits) :
    ofResults names results overflow =
      if results.length = Nat.pow 2 names.length then .ok ⟨names, results⟩
      else .error (if names.length < wordBits then .wrongSize else .tooManyNames) := by
  by_cases few : names.length < wordBits
  · have notMany : ¬ (overflow = .checked ∧ wordBits ≤ names.length) :=
      fun many ↦ Nat.not_le.2 few many.2
    rw [ofResults_eq, if_neg notMany, Nat.mod_eq_of_lt few, if_pos few]
  · have many : wordBits ≤ names.length := Nat.le_of_not_lt few
    have grows : Nat.pow 2 wordBits ≤ Nat.pow 2 names.length :=
      Nat.pow_le_pow_right (by decide) many
    rw [ofResults_eq, if_pos ⟨counted.resolve_right few, many⟩, if_neg few, if_neg (by omega)]

/-- If shifts wrap around, the results are compared with a power of two below the width of a
word. -/
theorem ofResults_wrapping (names : List String) (results : List Bool) :
    ofResults names results .wrapping =
      if results.length = Nat.pow 2 (names.length % wordBits) then .ok ⟨names, results⟩
      else .error .wrongSize := by
  rw [ofResults_eq, if_neg (by simp)]

private theorem ite_eq_ok_iff {p : Prop} [Decidable p] {made : TruthTable} {e : TableError} :
    (if p then Except.ok made else .error e) = .ok t ↔ p ∧ made = t := by
  split <;> simp [*]

/-! ### The rows -/

/-- If there are not more results than models, the rows have all results. -/
theorem map_snd_rows (h : t.results.length ≤ Nat.pow 2 t.names.length) :
    t.rows.map Prod.snd = t.results := by
  rw [← Enumeration.length_toList_ofNames] at h
  exact List.map_snd_zip h

private theorem map_fst_rows (h : t.results.length ≤ Nat.pow 2 t.names.length) :
    t.rows.map Prod.fst = (Enumeration.ofNames t.names).toList.take t.results.length := by
  rw [← Enumeration.length_toList_ofNames] at h
  rw [rows, List.zip_eq_zip_take_min, Nat.min_eq_right h]
  apply List.map_fst_zip
  rw [List.length_take, List.length_take]
  omega

private theorem map_fst_rows_of_full (h : t.results.length = Nat.pow 2 t.names.length) :
    t.rows.map Prod.fst = (Enumeration.ofNames t.names).toList := by
  rw [map_fst_rows (Nat.le_of_eq h), h, ← Enumeration.length_toList_ofNames, List.take_length]

/-- Let the results be no more than a word can count. If the machine checks its shifts or the names
are fewer than a word has bits, a table is made exactly from one result for each model, and all
models and all results are in its rows; any other number of results is an error. If the names
are as many as a word has bits or more, and the shift wraps around, tables are made of fewer
results than there are models, and the models at the end are in no row. -/
theorem ofResults_iff_one_result_for_each_model (overflow : Overflow) (names : List String)
    (results : List Bool) (hresults : results.length < Nat.pow 2 wordBits) :
    (overflow = .checked ∨ names.length < wordBits →
      ((∃ t, ofResults names results overflow = .ok t) ↔
        results.length = Nat.pow 2 names.length) ∧
      (results.length ≠ Nat.pow 2 names.length → ofResults names results overflow =
        .error (if names.length < wordBits then .wrongSize else .tooManyNames)) ∧
      ∀ t, ofResults names results overflow = .ok t → t.names = names ∧ t.results = results ∧
        t.rows.map Prod.fst = (Enumeration.ofNames names).toList ∧
        t.rows.map Prod.snd = results) ∧
    (overflow = .wrapping → wordBits ≤ names.length →
      ((∃ t, ofResults names results overflow = .ok t) ↔
        results.length = Nat.pow 2 (names.length % wordBits)) ∧
      ∀ t, ofResults names results overflow = .ok t →
        results.length < Nat.pow 2 names.length ∧
        t.rows.map Prod.fst = (Enumeration.ofNames names).toList.take results.length) := by
  constructor
  · intro counted
    rw [ofResults_of_counted counted hresults]
    simp only [ite_eq_ok_iff]
    refine ⟨by simp, fun notFull ↦ if_neg notFull, ?_⟩
    rintro t ⟨full, rfl⟩
    exact ⟨rfl, rfl, map_fst_rows_of_full full, map_snd_rows (Nat.le_of_eq full)⟩
  · rintro rfl many
    rw [ofResults_wrapping]
    simp only [ite_eq_ok_iff]
    refine ⟨by simp, ?_⟩
    rintro t ⟨hlength, rfl⟩
    have fewer : results.length < Nat.pow 2 names.length := by
      have wrapped : names.length % wordBits < names.length :=
        Nat.lt_of_lt_of_le (Nat.mod_lt names.length (by decide)) many
      rw [hlength]
      exact Nat.pow_lt_pow_right (by decide) wrapped
    exact ⟨fewer, map_fst_rows (Nat.le_of_lt fewer)⟩

/-- As many names as a word has bits and one result make no table on a machine that checks its
shifts. On one that does not, they make a table with a single row. -/
theorem ofResults_iff_one_result_for_each_model_at_word_width :
    let names := List.replicate wordBits "v"
    [true].length < Nat.pow 2 wordBits ∧ wordBits ≤ names.length ∧
    ofResults names [true] .checked = .error .tooManyNames ∧
    ∃ t, ofResults names [true] .wrapping = .ok t ∧
      t.rows.map Prod.fst = (Enumeration.ofNames names).toList.take 1 := by
  intro names
  have hresults : [true].length < Nat.pow 2 wordBits := by decide
  have hlength : names.length = wordBits := List.length_replicate
  have many : wordBits ≤ names.length := Nat.le_of_eq hlength.symm
  have notFull : [true].length ≠ Nat.pow 2 names.length := by
    rw [hlength]
    decide
  obtain ⟨-, checked, -⟩ :=
    (ofResults_iff_one_result_for_each_model .checked names [true] hresults).1 (.inl rfl)
  obtain ⟨made, rowsOf⟩ :=
    (ofResults_iff_one_result_for_each_model .wrapping names [true] hresults).2 rfl many
  obtain ⟨t, ht⟩ := made.2 (by rw [hlength]; decide)
  refine ⟨hresults, many, ?_, t, ht, (rowsOf t ht).2⟩
  rw [checked notFull, if_neg (Nat.not_lt.2 many)]

/-- It is not so on every machine that a table has one result for each model. -/
theorem exists_ofResults_without_one_result_for_each_model :
    ofResults (List.replicate 64 "v") [true] .wrapping =
        .ok ⟨List.replicate 64 "v", [true]⟩ ∧
      [true].length ≠ Nat.pow 2 (List.replicate 64 "v").length := by
  rw [ofResults_wrapping]
  decide

end TruthTable

namespace Sentence

/-- The truth table of a sentence is made of its variables and values. -/
theorem truthTable_eq (s : Sentence) (overflow : Overflow) :
    s.truthTable overflow = TruthTable.ofResults s.vars s.enumerate overflow := by
  rw [truthTable, s.yields_truthTableM.value_eq, enumerate_eq_map]

private theorem zip_enumerate (s : Sentence) :
    s.models.toList.zip s.enumerate = s.results s.models := by
  rw [enumerate_eq, ← List.map_prod_left_eq_zip]
  rfl

private theorem mem_results_iff (s : Sentence) (m : Model) (value : Bool) :
    (m, value) ∈ s.results s.models ↔ m.BindsExactly s.vars ∧ s.eval m = .ok value := by
  rw [results, List.mem_map, ← s.lexicographic_models.complete]
  constructor
  · rintro ⟨m', hm, h⟩
    cases h
    exact ⟨hm, eval_of_mem_models hm⟩
  · rintro ⟨hm, heval⟩
    exact ⟨m, hm, by rw [holds_of_eval heval]⟩

/-- A sentence with fewer variables than a word has bits has a truth table on every machine. It
consists of the variables and the enumerated values, and its rows are the results of the
sentence in their order: each model that binds exactly the variables stands in one row, with
the value of the sentence under it. -/
theorem truthTable_of_few_vars (s : Sentence) (overflow : Overflow)
    (few : s.vars.length < TruthTable.wordBits) :
    ∃ t, s.truthTable overflow = .ok t ∧ t.names = s.vars ∧ t.results = s.enumerate ∧
      (∀ count, t.rows.take count = s.firstResults count) ∧
      t.rows.length = Nat.pow 2 s.vars.length ∧
      t.rows.map Prod.fst = s.models.toList ∧
      (t.rows.map Prod.fst).Nodup ∧
      ∀ m value, (m, value) ∈ t.rows ↔ m.BindsExactly s.vars ∧ s.eval m = .ok value := by
  have full : s.enumerate.length = Nat.pow 2 s.vars.length := by
    rw [enumerate_eq, List.length_map, length_toList_models]
  have made : s.truthTable overflow = .ok ⟨s.vars, s.enumerate⟩ := by
    rw [truthTable_eq, TruthTable.ofResults_of_counted (.inr few), if_pos full]
    rw [full]
    exact Nat.pow_lt_pow_right (by decide) few
  have rows : (TruthTable.mk s.vars s.enumerate).rows = s.results s.models := s.zip_enumerate
  refine ⟨_, made, rfl, rfl, ?_, ?_, ?_, ?_, ?_⟩
  · intro count
    rw [rows, firstResults, (s.yields_firstResultsM count s.models).value_eq]
  · rw [rows, results, List.length_map, length_toList_models]
  · rw [rows, map_fst_results]
  · rw [rows, map_fst_results]
    exact Model.nodup_of_pairwise_precedes s.lexicographic_models.ordered
  · intro m value
    rw [rows, mem_results_iff]

/-- The truth table of a disjunction has four rows, and the disjunction is false in the row in
which both of its variables are. -/
theorem truthTable_of_few_vars_of_disjunction :
    let s := Sentence.binary .or (.var "p") (.var "q")
    s.vars.length < TruthTable.wordBits ∧
    ∃ t, s.truthTable .wrapping = .ok t ∧ t.names = s.vars ∧ t.results = s.enumerate ∧
      t.rows.length = 4 ∧ (Model.ofList (["p", "q"].zip [false, false]), false) ∈ t.rows := by
  intro s
  have few : s.vars.length < TruthTable.wordBits := by decide
  obtain ⟨t, made, hnames, hresults, -, hlength, -, -, hrows⟩ :=
    truthTable_of_few_vars s .wrapping few
  refine ⟨few, t, made, hnames, hresults, hlength, (hrows _ _).2 ⟨?_, by decide⟩⟩
  exact Model.bindsExactly_ofList_zip rfl

end Sentence

end Sentential
