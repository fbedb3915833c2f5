import Sentential.Proofs.Semantics.Entailment
import Sentential.Proofs.Semantics.SatisfyingModels
import Sentential.TruthTable

/-!
# Reports of the questions

Each question reports the models that it evaluates the sentence in, with the values found
there. All reports of a sentence are those of its models in order. A question that stops at a
value reports the shortest beginning of them that ends in the value; a question about all
models reports all of them. The enumeration ends with a report of its own, and an entailment
starts with one.
-/

namespace Sentential

/-! ### Beginnings that end in a value -/

/-- The last of the events reports the value. -/
def EndsIn (value : Bool) (es : List Event) : Prop :=
  ∃ m, es.getLast? = some (.evaluated m value)

/-- `seen` is the shortest beginning of `all` that ends in the value, or all of it if no
beginning does. -/
def UpToFirst (value : Bool) (all seen : List Event) : Prop :=
  (seen <+: all ∧ EndsIn value seen ∧
      ∀ other, other <+: all → EndsIn value other → seen.length ≤ other.length) ∨
    (seen = all ∧ ∀ other, other <+: all → ¬ EndsIn value other)

namespace Sentence

/-- The reports of the sentence in all its models, in the order of the enumeration. -/
def reports (s : Sentence) : List Event := (s.results s.models).map report

/-- The event reports the value that the sentence has in the model. -/
def IsReport (s : Sentence) (m : Model) (e : Event) : Prop :=
  ∃ value, s.eval m = .ok value ∧ e = .evaluated m value ∧
    e.line = "TRACE proplogic::sat " ++ (m.render ++ " -> " ++ truthWord value)

/-- The event reports that an enumeration of the sentence has ended, with the number of its models
and that of its variables. -/
def IsEnumerationReport (s : Sentence) (e : Event) : Prop :=
  e = .enumerated (Nat.pow 2 s.vars.length) s.vars.length ∧
    e.line = "DEBUG proplogic::sat " ++
      ("Enumerated " ++ toString (Nat.pow 2 s.vars.length) ++ " models over " ++
        toString s.vars.length ++ " variables")

/-- The event reports that the first sentence without the second one is about to be refuted. -/
def IsQueryReport (a b : Sentence) (e : Event) : Prop :=
  e = .refuting (.binary .and a (.neg b)) ∧
    e.line = "DEBUG proplogic::sat " ++
      ("Checking " ++ (binary .and a (.neg b)).render ++ " for unsatisfiability")

private theorem exists_mem_of_endsIn {value : Bool} {es : List Event}
    {results : List (Model × Bool)} (h : EndsIn value es) (hbegins : es <+: results.map report) :
    ∃ result ∈ results, result.2 = value := by
  obtain ⟨m, hlast⟩ := h
  have listed := hbegins.mem (List.mem_of_getLast? hlast)
  obtain ⟨result, hresult, hreport⟩ := List.mem_map.1 listed
  cases hreport
  exact ⟨result, hresult, rfl⟩

private theorem upTo_of_forall_ne {value : Bool} {results : List (Model × Bool)}
    (h : ∀ result ∈ results, result.2 ≠ value) : upTo value results = results := by
  induction results with
  | nil => rfl
  | cons result rest ih =>
    obtain ⟨hresult, hrest⟩ := List.forall_mem_cons.1 h
    rw [upTo, if_neg hresult, ih hrest]

private theorem upTo_append_cons {value : Bool} {before after : List (Model × Bool)}
    {result : Model × Bool} (hbefore : ∀ result ∈ before, result.2 ≠ value)
    (hresult : result.2 = value) :
    upTo value (before ++ result :: after) = before ++ [result] := by
  induction before with
  | nil => rw [List.nil_append, upTo, if_pos hresult, List.nil_append]
  | cons first before ih =>
    obtain ⟨hfirst, hrest⟩ := List.forall_mem_cons.1 hbefore
    rw [List.cons_append, upTo, if_neg hfirst, ih hrest, List.cons_append]

/-- The reports of the results up to the first one of the value are the shortest beginning that
ends in it. -/
theorem upToFirst_upTo (value : Bool) (results : List (Model × Bool)) :
    UpToFirst value (results.map report) ((upTo value results).map report) := by
  cases hfind : results.find? (·.2 == value) with
  | none =>
    have absent : ∀ result ∈ results, result.2 ≠ value := by
      simpa using List.find?_eq_none.1 hfind
    right
    refine ⟨by rw [upTo_of_forall_ne absent], ?_⟩
    intro other hbegins hends
    obtain ⟨result, hresult, hvalue⟩ := exists_mem_of_endsIn hends hbegins
    exact absent result hresult hvalue
  | some result =>
    obtain ⟨hvalue, before, after, rfl, hbefore⟩ := List.find?_eq_some_iff_append.1 hfind
    have absent : ∀ result ∈ before, result.2 ≠ value := by simpa using hbefore
    have hvalue : result.2 = value := by simpa using hvalue
    left
    rw [upTo_append_cons absent hvalue, List.map_append, List.map_append]
    refine ⟨⟨after.map report, by simp⟩, ⟨result.1, by simp [report, hvalue]⟩, ?_⟩
    intro other hbegins hends
    -- A shorter beginning holds results before the first one of the value only.
    by_contra shorter
    rw [List.length_append, List.map_singleton, List.length_singleton] at shorter
    have inside : other <+: before.map report :=
      List.prefix_of_prefix_length_le hbegins (List.prefix_append _ _) (by omega)
    obtain ⟨found, hfound, hfoundValue⟩ := exists_mem_of_endsIn hends inside
    exact absent found hfound hfoundValue

/-! ### What the questions report -/

/-- The first results are those of the first models, and no others are reported. -/
theorem yields_firstResultsM (s : Sentence) (count : Nat) (e : Enumeration) :
    (s.firstResultsM count e).Yields ((s.results e).take count)
      (((s.results e).take count).map report) := by
  induction count generalizing e with
  | zero => exact .pure []
  | succ count ih =>
    rw [firstResultsM]
    cases hnext : e.next? with
    | none =>
      rw [results, Enumeration.toList_of_next?_eq_none hnext]
      exact .pure []
    | some next =>
      obtain ⟨m, rest⟩ := next
      rw [results, Enumeration.toList_of_next? hnext]
      exact (yields_observe s m).bind ((ih rest).map ((m, s.holds m) :: ·))

/-- A truth table is made of the values of the results. -/
theorem yields_truthTableM (s : Sentence) {overflow : Overflow} :
    (s.truthTableM overflow).Yields
      (TruthTable.ofResults s.vars ((s.results s.models).map Prod.snd) overflow)
      ((s.results s.models).map report) :=
  s.yields_valuesM.map fun values ↦ TruthTable.ofResults s.vars values overflow

/-- Contingency is validity and then, only if that fails, satisfiability. -/
theorem events_isContingentM (s : Sentence) :
    s.isContingentM.events =
      s.isValidM.events ++ if s.isValid then [] else s.isSatisfiableM.events := by
  rw [s.yields_isContingentM.events_eq, s.yields_isValidM.events_eq, isValid_eq_all,
    s.yields_isSatisfiableM.events_eq]

/-- The reports of a sentence go through its models, one by one. -/
theorem forall₂_reports (s : Sentence) :
    List.Forall₂ s.IsReport s.models.toList s.reports := by
  rw [reports, results, List.map_map, List.forall₂_map_right_iff, List.forall₂_same]
  intro m hm
  exact ⟨s.holds m, eval_of_mem_models hm, rfl, rfl⟩

/-- There is one report for each model. -/
theorem length_reports (s : Sentence) : s.reports.length = Nat.pow 2 s.vars.length := by
  rw [reports, results, List.length_map, List.length_map, length_toList_models]

/-- What the questions report. All reports of a sentence are those of its models in order, each
with the value of the sentence there. Validity reports the shortest beginning of them that ends
in `false`; satisfiability, unsatisfiability and the search for one satisfying model report the
shortest beginning that ends in `true`; each reports all if there is no such beginning.
Contingency reports what validity does and, if that fails, what satisfiability does, from the
first model on. The list and the number of satisfying models and the truth table report all,
and the enumeration closes with the number of models and of variables. The first `k` results
report the first `k` models at most. Entailment names its query and goes on as the query's
satisfiability does; equivalence goes on to the second entailment if the first one holds. -/
theorem events_of_questions (a b : Sentence) :
    List.Forall₂ a.IsReport a.models.toList a.reports ∧
    UpToFirst false a.reports a.isValidM.events ∧
    UpToFirst true a.reports a.isSatisfiableM.events ∧
    UpToFirst true a.reports a.isUnsatisfiableM.events ∧
    UpToFirst true a.reports a.oneSatM.events ∧
    a.isContingentM.events =
      a.isValidM.events ++ (if a.isValid then [] else a.isSatisfiableM.events) ∧
    a.allSatM.events = a.reports ∧
    a.satCountM.events = a.reports ∧
    a.truthTableM.events = a.reports ∧
    (∃ closing, a.IsEnumerationReport closing ∧ a.enumerateM.events = a.reports ++ [closing]) ∧
    (∀ k, (a.firstResultsM k a.models).events = a.reports.take k ∧
      (a.firstResultsM k a.models).events.length = min k (Nat.pow 2 a.vars.length)) ∧
    (∃ opening, IsQueryReport a b opening ∧
      (a.entailsM b).events = opening :: (binary .and a (.neg b)).isSatisfiableM.events) ∧
    (a.equivalentM b).events =
      (a.entailsM b).events ++ (if a.entails b then (b.entailsM a).events else []) := by
  have untilTrue := upToFirst_upTo true (a.results a.models)
  refine ⟨a.forall₂_reports, ?_, ?_, ?_, ?_, a.events_isContingentM,
    a.yields_allSatM.events_eq, a.yields_satCountM.events_eq, a.yields_truthTableM.events_eq,
    ?_, ?_, ?_, (yields_equivalentM a b).events_eq⟩
  · rw [a.yields_isValidM.events_eq]
    exact upToFirst_upTo false (a.results a.models)
  · rw [a.yields_isSatisfiableM.events_eq]
    exact untilTrue
  · rw [a.yields_isUnsatisfiableM.events_eq]
    exact untilTrue
  · rw [a.yields_oneSatM.events_eq]
    exact untilTrue
  · refine ⟨_, ⟨rfl, rfl⟩, ?_⟩
    rw [a.yields_enumerateM.events_eq, ← a.length_reports, reports, List.length_map]
  · intro k
    have taken : (a.firstResultsM k a.models).events = a.reports.take k := by
      rw [(a.yields_firstResultsM k a.models).events_eq, List.map_take, reports]
    refine ⟨taken, ?_⟩
    rw [taken, List.length_take, length_reports]
  · refine ⟨_, ⟨rfl, rfl⟩, ?_⟩
    rw [(yields_entailsM a b).events_eq, (a.counterexample b).yields_isSatisfiableM.events_eq.symm]
    rfl

end Sentence

end Sentential
