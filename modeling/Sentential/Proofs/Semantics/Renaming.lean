import Mathlib.Data.Set.Function
import Sentential.Proofs.Semantics.Reports

/-!
# Renamed variables

Variables can get other names, as long as different variables keep different names. The order in
which models are enumerated is that in which the variables are discovered, so it survives any
such renaming, although models keep their bindings in the order of the names. Hence the answers
about a sentence do not depend on what its variables are called.
-/

namespace Sentential

/-! ### Renamed models -/

namespace Model

/-- The model with its names renamed. -/
def rename (f : String → String) (m : Model) : Model :=
  ofList (m.bindings.map (Prod.map f id))

variable {f : String → String} {bindings : List (String × Bool)} {m : Model} {name : String}

private theorem get?_ofList_map_fst (h : ∀ x ∈ bindings.map Prod.fst, f x = f name → x = name) :
    (ofList (bindings.map (Prod.map f id))).get? (f name) = (ofList bindings).get? name := by
  induction bindings with
  | nil => rfl
  | cons binding bindings ih =>
    obtain ⟨hfirst, hrest⟩ := List.forall_mem_cons.1 h
    have first : f name = f binding.1 ↔ name = binding.1 :=
      ⟨fun same ↦ (hfirst same.symm).symm, congrArg f⟩
    rw [List.map_cons, get?_ofList_cons, get?_ofList_cons, ih hrest]
    simp only [Prod.map_fst, Prod.map_snd, id_eq, first]

/-- Renaming keeps the value of a name that shares its new name with no other. -/
theorem get?_rename (h : ∀ x, (m.get? x).isSome = true → f x = f name → x = name) :
    (m.rename f).get? (f name) = m.get? name := by
  rw [rename, get?_ofList_map_fst, ofList_bindings]
  intro x hx
  exact h x (mem_map_fst_bindings_iff.1 hx)

private theorem isSome_get?_rename_iff :
    ((m.rename f).get? name).isSome = true ↔ ∃ x, (m.get? x).isSome = true ∧ f x = name := by
  have names : (m.bindings.map (Prod.map f id)).map Prod.fst = (m.bindings.map Prod.fst).map f := by
    rw [List.map_map, List.map_map]
    rfl
  rw [rename, isSome_get?_ofList_iff, names, List.mem_map]
  simp only [mem_map_fst_bindings_iff]

private theorem BindsExactly.rename {names : List String} (hm : m.BindsExactly names) :
    (m.rename f).BindsExactly (names.map f) := by
  intro name
  rw [isSome_get?_rename_iff, List.mem_map]
  simp only [hm _]

private theorem BindsExactly.get?_rename {names : List String} (hm : m.BindsExactly names)
    (hf : Set.InjOn f {x | x ∈ names}) (hname : name ∈ names) :
    (m.rename f).get? (f name) = m.get? name :=
  Model.get?_rename fun x hx ↦ hf ((hm x).1 hx) hname

private theorem rename_ofList_zip {names : List String} {row : List Bool}
    (hlength : row.length = names.length) (hf : Set.InjOn f {x | x ∈ names}) :
    (ofList (names.zip row)).rename f = ofList ((names.map f).zip row) := by
  have hm : (ofList (names.zip row)).BindsExactly names := bindsExactly_ofList_zip hlength
  have hlength' : row.length = (names.map f).length := by rw [hlength, List.length_map]
  apply eq_of_bindsExactly hm.rename (bindsExactly_ofList_zip hlength')
  intro renamed hrenamed
  obtain ⟨name, hname, rfl⟩ := List.mem_map.1 hrenamed
  rw [hm.get?_rename hf hname, List.zip_map_left, get?_ofList_map_fst]
  intro x hx
  rw [List.map_fst_zip (Nat.le_of_eq hlength.symm)] at hx
  exact hf hx hname

end Model

/-- The models over renamed names are the renamed models, in the same order. -/
theorem Enumeration.toList_ofNames_map {f : String → String} {names : List String}
    (hf : Set.InjOn f {x | x ∈ names}) :
    (ofNames (names.map f)).toList = (ofNames names).toList.map (Model.rename f) := by
  rw [toList_ofNames, toList_ofNames, List.length_map, List.map_map]
  apply List.map_congr_left
  intro row hrow
  exact (Model.rename_ofList_zip (mem_rows.1 hrow) hf).symm

/-! ### Renamed sentences -/

namespace Sentence

/-- The sentence with its variables renamed. -/
def rename (f : String → String) (s : Sentence) : Sentence := s.subst fun name ↦ .var (f name)

variable {f : String → String} {s : Sentence}

/-- A renamed sentence has the same value where the new names have the values of the old ones. -/
theorem eval_rename {m renamed : Model} (h : ∀ name ∈ s.names,
      ∃ value, m.get? name = some value ∧ renamed.get? (f name) = some value) :
    (s.rename f).eval renamed = s.eval m := by
  induction s with
  | const value => rfl
  | var name =>
    obtain ⟨value, hold, hnew⟩ := h name (List.mem_singleton_self name)
    change (var (f name)).eval renamed = _
    simp only [eval, hold, hnew]
  | neg body ih =>
    change (neg (body.rename f)).eval renamed = _
    simp only [eval, ih h]
  | binary op lhs rhs ihl ihr =>
    have left := ihl fun name hname ↦ h name (List.mem_append_left _ hname)
    have right := ihr fun name hname ↦ h name (List.mem_append_right _ hname)
    change (binary op (lhs.rename f) (rhs.rename f)).eval renamed = _
    simp only [eval, left, right]

private theorem collectVars_rename {names : List String}
    (hf : Set.InjOn f {x | x ∈ s.collectVars names}) :
    (s.rename f).collectVars (names.map f) = (s.collectVars names).map f := by
  induction s generalizing names with
  | const value => rfl
  | var name =>
    have known : f name ∈ names.map f ↔ name ∈ names := by
      refine ⟨?_, List.mem_map_of_mem⟩
      intro h
      obtain ⟨x, hx, same⟩ := List.mem_map.1 h
      have collected : name ∈ (var name).collectVars names :=
        mem_collectVars.2 (.inr (List.mem_singleton_self name))
      rwa [← hf (mem_collectVars.2 (.inl hx)) collected same]
    change (var (f name)).collectVars (names.map f) = _
    rw [collectVars, collectVars]
    by_cases h : name ∈ names
    · rw [if_pos h, if_pos (known.2 h)]
    · rw [if_neg h, if_neg (mt known.1 h), List.map_append, List.map_singleton]
  | neg body ih => exact ih hf
  | binary op lhs rhs ihl ihr =>
    have left : Set.InjOn f {x | x ∈ lhs.collectVars names} :=
      hf.mono fun _ hx ↦ (rhs.prefix_collectVars _).mem hx
    rw [collectVars, ← ihr hf, ← ihl left]
    rfl

/-- The variables of a sentence are renamed in place. -/
theorem vars_rename (hf : Set.InjOn f {x | x ∈ s.vars}) : (s.rename f).vars = s.vars.map f := by
  have collected : (s.rename f).collectVars ([].map f) = (s.collectVars []).map f :=
    collectVars_rename hf
  exact collected

/-- The models of a renamed sentence are the renamed models, in the same order. -/
theorem toList_models_rename (hf : Set.InjOn f {x | x ∈ s.vars}) :
    (s.rename f).models.toList = s.models.toList.map (Model.rename f) := by
  rw [models, vars_rename hf]
  exact Enumeration.toList_ofNames_map hf

/-- A renamed sentence has the same value in the renamed model. -/
theorem holds_rename {m : Model} (hf : Set.InjOn f {x | x ∈ s.vars}) (hm : m ∈ s.models.toList) :
    (s.rename f).holds (m.rename f) = s.holds m := by
  have hexact : m.BindsExactly s.vars := (s.lexicographic_models.complete m).1 hm
  rw [holds, holds, eval_rename]
  intro name h
  have hname := mem_vars.2 h
  obtain ⟨value, hvalue⟩ := Option.isSome_iff_exists.1 ((hexact name).2 hname)
  exact ⟨value, hvalue, by rw [hexact.get?_rename hf hname, hvalue]⟩

/-- The results of a renamed sentence are its results in the renamed models. -/
theorem results_rename (hf : Set.InjOn f {x | x ∈ s.vars}) :
    (s.rename f).results (s.rename f).models =
      (s.results s.models).map fun result ↦ (result.1.rename f, result.2) := by
  rw [results, results, toList_models_rename hf, List.map_map, List.map_map]
  apply List.map_congr_left
  intro m hm
  rw [Function.comp_apply, holds_rename hf hm]
  rfl

/-- Two sentences get the same answers, where `f` takes the names in the answers about the first to
the names in those about the second. -/
structure SameAnswers (f : String → String) (s t : Sentence) : Prop where
  vars : t.vars = s.vars.map f
  models : t.models.toList = s.models.toList.map (Model.rename f)
  values : ∀ m ∈ s.models.toList, (m.rename f).BindsExactly (s.vars.map f) ∧
    ∀ name ∈ s.vars, (m.rename f).get? (f name) = m.get? name
  firstResults : ∀ count, t.firstResults count =
    (s.firstResults count).map fun result ↦ (result.1.rename f, result.2)
  enumerate : t.enumerate = s.enumerate
  isValid : t.isValid = s.isValid
  isSatisfiable : t.isSatisfiable = s.isSatisfiable
  isUnsatisfiable : t.isUnsatisfiable = s.isUnsatisfiable
  isContingent : t.isContingent = s.isContingent
  satCount : t.satCount = s.satCount
  oneSat : t.oneSat = s.oneSat.map (Model.rename f)
  allSat : t.allSat = s.allSat.map (Model.rename f)

/-- Renaming variables apart changes no answer about a sentence but for the names in it, whatever
becomes of the order of the names. -/
theorem sameAnswers_rename {f : String → String} {s : Sentence}
    (hf : Set.InjOn f {x | x ∈ s.vars}) : SameAnswers f s (s.rename f) := by
  have same := results_rename hf
  have valid : (s.rename f).isValid = s.isValid := by
    rw [isValid_eq_all, same, List.all_map, isValid_eq_all]
    rfl
  have satisfiable : (s.rename f).isSatisfiable = s.isSatisfiable := by
    rw [isSatisfiable_eq_any, same, List.any_map, isSatisfiable_eq_any]
    rfl
  have values : (s.rename f).enumerate = s.enumerate := by
    rw [enumerate_eq_map, same, List.map_map, enumerate_eq_map]
    rfl
  have found : (s.rename f).allSat = s.allSat.map (Model.rename f) := by
    rw [allSat_eq_filter, same, List.filter_map, List.map_map, allSat_eq_filter, List.map_map]
    rfl
  refine ⟨vars_rename hf, toList_models_rename hf, ?_, ?_, values, valid, satisfiable, ?_, ?_, ?_,
    ?_, found⟩
  · intro m hm
    have hexact : m.BindsExactly s.vars := (s.lexicographic_models.complete m).1 hm
    exact ⟨hexact.rename, fun name hname ↦ hexact.get?_rename hf hname⟩
  · intro count
    rw [firstResults, ((s.rename f).yields_firstResultsM count _).value_eq, same, ← List.map_take,
      firstResults, (s.yields_firstResultsM count _).value_eq]
  · rw [isUnsatisfiable_eq, satisfiable, isUnsatisfiable_eq]
  · rw [isContingent_eq, valid, satisfiable, isContingent_eq]
  · rw [satCount_eq_count_enumerate, values, satCount_eq_count_enumerate]
  · rw [oneSat_eq_head?_allSat, found, List.head?_map, oneSat_eq_head?_allSat]

/-- Two variables are renamed so that their alphabetical order turns around, by a function that
confuses other names. -/
theorem sameAnswers_rename_of_reversed_order :
    let f (name : String) : String := if name = "a" then "z" else "y"
    let s := binary .and (var "a") (neg (var "b"))
    "a" < "b" ∧ f "b" < f "a" ∧ f "b" = f "c" ∧
      Set.InjOn f {x | x ∈ s.vars} ∧ SameAnswers f s (s.rename f) := by
  intro f s
  have apart : ∀ x ∈ s.vars, ∀ y ∈ s.vars, f x = f y → x = y := by decide
  have injOn : Set.InjOn f {x | x ∈ s.vars} := fun x hx y hy ↦ apart x hx y hy
  exact ⟨by decide, by decide, by decide, injOn, sameAnswers_rename injOn⟩

end Sentence

end Sentential
