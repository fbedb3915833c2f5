import Sentential.Proofs.Model.Rows

/-!
# Models in lexicographic order

Over names without repeats, the enumeration lists each model that binds exactly these names
once, in the lexicographic order of the values of the names, with `true` before `false`.
Nothing else is such a list, so the order of the enumeration is settled by this description.
-/

namespace Sentential

/-! ### Rows -/

/-- Lexicographic order of rows, with `true` before `false`. -/
def RowPrecedes (row row' : List Bool) : Prop :=
  List.Lex (fun a b ↦ a = true ∧ b = false) row row'

private theorem not_rowPrecedes_self (row : List Bool) : ¬ RowPrecedes row row := by
  apply List.lex_irrefl
  rintro a ⟨htrue, hfalse⟩
  rw [htrue] at hfalse
  cases hfalse

private theorem RowPrecedes.asymm {row row' : List Bool} (h : RowPrecedes row row') :
    ¬ RowPrecedes row' row := by
  apply List.lex_asymm _ h
  rintro a b ⟨rfl, rfl⟩ ⟨hfalse, -⟩
  cases hfalse

/-- A row can be filled in two ways at each place. -/
theorem length_rows (n : Nat) : (rows n).length = Nat.pow 2 n := by
  induction n with
  | zero => rfl
  | succ n ih =>
    have doubled : Nat.pow 2 (n + 1) = Nat.pow 2 n * 2 := rfl
    rw [rows, List.length_append, List.length_map, List.length_map, ih]
    omega

/-- The rows are listed in lexicographic order. -/
theorem pairwise_rows (n : Nat) : (rows n).Pairwise RowPrecedes := by
  induction n with
  | zero => exact List.pairwise_singleton _ _
  | succ n ih =>
    have extended (value : Bool) : ((rows n).map (value :: ·)).Pairwise RowPrecedes := by
      rw [List.pairwise_map]
      exact ih.imp fun h ↦ .cons h
    rw [rows, List.pairwise_append]
    refine ⟨extended true, extended false, ?_⟩
    intro row hrow row' hrow'
    obtain ⟨rest, -, rfl⟩ := List.mem_map.1 hrow
    obtain ⟨rest', -, rfl⟩ := List.mem_map.1 hrow'
    exact .rel ⟨rfl, rfl⟩

/-! ### Models -/

namespace Model

/-- The model binds the given names and no others. -/
def BindsExactly (m : Model) (names : List String) : Prop :=
  ∀ name, (m.get? name).isSome = true ↔ name ∈ names

/-- The values that the model gives to the names, in their order. -/
def row (m : Model) (names : List String) : List Bool := names.filterMap m.get?

/-- Lexicographic order of models by the values of the names. The first name counts most. -/
def Precedes (names : List String) (a b : Model) : Prop := RowPrecedes (a.row names) (b.row names)

/-- Models in lexicographic order do not repeat. -/
theorem nodup_of_pairwise_precedes {names : List String} {models : List Model}
    (h : models.Pairwise (Precedes names)) : models.Nodup := by
  apply h.imp
  rintro a b hab rfl
  exact not_rowPrecedes_self _ hab

/-- The model of a row binds exactly the names, repeats or not. -/
theorem bindsExactly_ofList_zip {names : List String} {row : List Bool}
    (h : row.length = names.length) : (ofList (names.zip row)).BindsExactly names := by
  intro name
  rw [isSome_get?_ofList_iff, List.map_fst_zip (Nat.le_of_eq h.symm)]

private theorem row_ofList_map (names : List String) (value : String → Bool) :
    (ofList (names.map fun x ↦ (x, value x))).row names = names.map value := by
  rw [row, ← List.filterMap_eq_map (f := value)]
  apply List.filterMap_congr
  intro name hname
  exact get?_ofList_map value hname

/-- Models that bind exactly the same names with the same values are equal. -/
theorem eq_of_bindsExactly {a b : Model} {names : List String} (ha : a.BindsExactly names)
    (hb : b.BindsExactly names) (h : ∀ name ∈ names, a.get? name = b.get? name) : a = b := by
  apply ext_get?
  intro name
  by_cases hname : name ∈ names
  · exact h name hname
  · have absent {m : Model} (hm : m.BindsExactly names) : m.get? name = none := by
      rw [← Option.not_isSome_iff_eq_none, hm name]
      exact hname
    rw [absent ha, absent hb]

end Model

/-- All models that bind exactly the names, each once, in lexicographic order. -/
structure Lexicographic (names : List String) (models : List Model) : Prop where
  complete : ∀ m, m ∈ models ↔ m.BindsExactly names
  ordered : models.Pairwise (Model.Precedes names)

/-- Names have no two lists of their models in lexicographic order. -/
theorem Lexicographic.unique {names : List String} {models others : List Model}
    (h : Lexicographic names models) (hothers : Lexicographic names others) :
    others = models := by
  have irrefl : Std.Irrefl (Model.Precedes names) := ⟨fun m ↦ not_rowPrecedes_self _⟩
  have antisymm : Std.Antisymm (Model.Precedes names) :=
    ⟨fun a b hab hba ↦ absurd hba (RowPrecedes.asymm hab)⟩
  apply hothers.ordered.eq_of_mem_iff h.ordered
  intro m
  rw [hothers.complete, h.complete]

private theorem exists_map_eq_row {names : List String} (hnames : names.Nodup) {row : List Bool}
    (h : row.length = names.length) : ∃ value : String → Bool, names.map value = row := by
  induction names generalizing row with
  | nil => exact ⟨fun _ ↦ true, (List.length_eq_zero_iff.1 h).symm⟩
  | cons name names ih =>
    cases row with
    | nil => cases h
    | cons b row =>
      obtain ⟨hname, hrest⟩ := List.nodup_cons.1 hnames
      obtain ⟨value, hvalue⟩ := ih hrest (Nat.succ.inj h)
      refine ⟨fun x ↦ if x = name then b else value x, ?_⟩
      rw [List.map_cons, if_pos rfl, ← hvalue]
      congr 1
      apply List.map_congr_left
      intro x hx
      have differ : x ≠ name := by
        rintro rfl
        exact hname hx
      exact if_neg differ

namespace Enumeration

private theorem row_ofList_zip {names : List String} (hnames : names.Nodup) {row : List Bool}
    (h : row.length = names.length) : (Model.ofList (names.zip row)).row names = row := by
  obtain ⟨value, rfl⟩ := exists_map_eq_row hnames h
  rw [← List.map_prod_left_eq_zip]
  exact Model.row_ofList_map names value

/-- There are as many models as ways to fill a row. -/
theorem length_toList_ofNames (names : List String) :
    (ofNames names).toList.length = Nat.pow 2 names.length := by
  rw [length_toList, remaining_ofNames]

/-- Enumerated models bind exactly the names, repeated or not. -/
theorem bindsExactly_of_mem_toList {names : List String} {m : Model}
    (h : m ∈ (ofNames names).toList) : m.BindsExactly names := by
  rw [toList_ofNames, List.mem_map] at h
  obtain ⟨row, hrow, rfl⟩ := h
  exact Model.bindsExactly_ofList_zip (mem_rows.1 hrow)

/-- Names without repeats are enumerated in lexicographic order. -/
theorem lexicographic_toList {names : List String} (hnames : names.Nodup) :
    Lexicographic names (ofNames names).toList := by
  constructor
  · intro m
    refine ⟨bindsExactly_of_mem_toList, ?_⟩
    intro hm
    -- A listed model has the same values at the names, and neither binds anything else.
    obtain ⟨listed, hlisted, hagree⟩ :=
      exists_mem_toList names fun name ↦ (m.get? name).getD false
    have same : m = listed := by
      apply Model.eq_of_bindsExactly hm (bindsExactly_of_mem_toList hlisted)
      intro name hname
      obtain ⟨value, hvalue⟩ := Option.isSome_iff_exists.1 ((hm name).2 hname)
      rw [hagree name hname, hvalue]
      rfl
    rw [same]
    exact hlisted
  · rw [toList_ofNames, List.pairwise_map]
    apply (pairwise_rows names.length).imp_of_mem
    intro row row' hrow hrow' h
    rw [Model.Precedes, row_ofList_zip hnames (mem_rows.1 hrow),
      row_ofList_zip hnames (mem_rows.1 hrow')]
    exact h

/-- Names without repeats give the same models in whatever order they are listed. -/
theorem perm_toList_ofNames {names others : List String} (hnames : names.Nodup)
    (h : names.Perm others) : (ofNames names).toList.Perm (ofNames others).toList := by
  have listed := lexicographic_toList hnames
  have relisted := lexicographic_toList (h.nodup hnames)
  rw [List.perm_ext_iff_of_nodup (Model.nodup_of_pairwise_precedes listed.ordered)
    (Model.nodup_of_pairwise_precedes relisted.ordered)]
  intro m
  rw [listed.complete, relisted.complete]
  simp only [Model.BindsExactly, h.mem_iff]

end Enumeration

end Sentential
