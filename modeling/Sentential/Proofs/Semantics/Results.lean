import Sentential.Proofs.Model.Rows
import Sentential.Semantics.Check

/-!
# Scans as folds over a list of results

A scan looks at the results of a sentence, one for each model to come, until it is ended.
`visitAll` is that fold over the list of results; it gives the answer of the scan and the
results that were looked at, which are the ones that the scan reports. The questions about a
sentence are scans of two kinds: those that stop at the first result of some value, and those
that look at all results.
-/

namespace Sentential

namespace Sentence

variable {α : Type}

/-- The models to come, each with the value of the sentence. -/
def results (s : Sentence) (e : Enumeration) : List (Model × Bool) :=
  e.toList.map fun m ↦ (m, s.holds m)

/-- The report of a result. -/
def report (result : Model × Bool) : Event := .evaluated result.1 result.2

/-- The models of the results are those to come. -/
theorem map_fst_results (s : Sentence) (e : Enumeration) :
    (s.results e).map Prod.fst = e.toList := by
  rw [results, List.map_map]
  exact List.map_id _

/-- Visits results until a visit ends it: the answer, and the results that were visited. -/
def visitAll (visit : α → Model → Bool → ForInStep α) (acc : α) :
    List (Model × Bool) → α × List (Model × Bool)
  | [] => (acc, [])
  | result :: rest =>
    match visit acc result.1 result.2 with
    | .done acc => (acc, [result])
    | .yield acc => ((visitAll visit acc rest).1, result :: (visitAll visit acc rest).2)

/-- A scan gives the answer of the visits and reports the results that they visit. -/
theorem yields_scan (s : Sentence) (visit : α → Model → Bool → ForInStep α) (acc : α)
    (e : Enumeration) :
    (s.scan visit acc e).Yields (visitAll visit acc (s.results e)).1
      ((visitAll visit acc (s.results e)).2.map report) := by
  induction e using Enumeration.next_induction generalizing acc with
  | ended e ended =>
    rw [results, Enumeration.toList_of_next?_eq_none ended]
    exact yields_scan_of_none ended
  | step e m rest hnext ih =>
    have split : s.results e = (m, s.holds m) :: s.results rest := by
      rw [results, Enumeration.toList_of_next? hnext]
      rfl
    rw [split, visitAll]
    cases hvisit : visit acc m (s.holds m) with
    | done answer => exact yields_scan_of_done hnext hvisit
    | yield next => exact yields_scan_of_yield hnext hvisit (ih next)

/-- Visits look at the first results, up to the one that ends them. -/
theorem prefix_visitAll (visit : α → Model → Bool → ForInStep α) (acc : α)
    (results : List (Model × Bool)) : (visitAll visit acc results).2 <+: results := by
  induction results generalizing acc with
  | nil => exact List.prefix_rfl
  | cons result rest ih =>
    rw [visitAll]
    split
    · exact List.cons_prefix_cons.2 ⟨rfl, List.nil_prefix⟩
    · next acc _ => exact List.cons_prefix_cons.2 ⟨rfl, ih acc⟩

/-- The results up to the first one of the given value, or all if there is none. -/
def upTo (value : Bool) : List (Model × Bool) → List (Model × Bool)
  | [] => []
  | result :: rest => if result.2 = value then [result] else result :: upTo value rest

/-- The results up to a value come first. -/
theorem prefix_upTo (value : Bool) (results : List (Model × Bool)) :
    upTo value results <+: results := by
  induction results with
  | nil => exact List.prefix_rfl
  | cons result rest ih =>
    rw [upTo]
    split
    · exact List.cons_prefix_cons.2 ⟨rfl, List.nil_prefix⟩
    · exact List.cons_prefix_cons.2 ⟨rfl, ih⟩

private theorem visitAll_until {visit : α → Model → Bool → ForInStep α} {stop : Bool} {missing : α}
    {found : Model → α} (hstop : ∀ acc m, visit acc m stop = .done (found m))
    (hgo : ∀ acc m, visit acc m (!stop) = .yield missing) (results : List (Model × Bool)) :
    visitAll visit missing results =
      ((results.find? (·.2 == stop)).elim missing (found ·.1), upTo stop results) := by
  induction results with
  | nil => rfl
  | cons result rest ih =>
    obtain ⟨m, value⟩ := result
    by_cases h : value = stop
    · simp [visitAll, upTo, h, hstop]
    · have other : value = !stop := Bool.eq_not_of_ne h
      simp [visitAll, upTo, other, hgo, ih]

private theorem visitAll_yield (step : α → Model → Bool → α) (acc : α)
    (results : List (Model × Bool)) :
    visitAll (fun acc m value ↦ .yield (step acc m value)) acc results =
      (results.foldl (fun acc result ↦ step acc result.1 result.2) acc, results) := by
  induction results generalizing acc with
  | nil => rfl
  | cons result rest ih => simp [visitAll, ih]

/-- A scan that stops at the first result of the value `stop` gives what it finds there, or else
`missing`, and reports the results up to it. -/
theorem yields_scan_until (s : Sentence) (visit : α → Model → Bool → ForInStep α) (stop : Bool)
    (missing : α) (found : Model → α) (hstop : ∀ acc m, visit acc m stop = .done (found m))
    (hgo : ∀ acc m, visit acc m (!stop) = .yield missing) (e : Enumeration) :
    (s.scan visit missing e).Yields
      (((s.results e).find? (·.2 == stop)).elim missing (found ·.1))
      ((upTo stop (s.results e)).map report) := by
  have scanned := yields_scan s visit missing e
  rw [visitAll_until hstop hgo] at scanned
  exact scanned

/-- A scan that is never ended folds over all results and reports them. -/
theorem yields_scan_all (s : Sentence) (step : α → Model → Bool → α) (acc : α)
    (e : Enumeration) :
    (s.scan (fun acc m value ↦ .yield (step acc m value)) acc e).Yields
      ((s.results e).foldl (fun acc result ↦ step acc result.1 result.2) acc)
      ((s.results e).map report) := by
  have scanned := yields_scan s (fun acc m value ↦ .yield (step acc m value)) acc e
  rw [visitAll_yield] at scanned
  exact scanned

/-! ### Questions that stop at a result -/

/-- A sentence is valid if it is true in every model. The models up to the first one in which
it is false are looked at. -/
theorem yields_isValidM (s : Sentence) :
    s.isValidM.Yields ((s.results s.models).all (·.2))
      ((upTo false (s.results s.models)).map report) := by
  have scanned := s.yields_scan_until
    (fun _ _ value ↦ if value then .yield true else .done false) false true (fun _ ↦ false)
    (fun _ _ ↦ rfl) (fun _ _ ↦ rfl) s.models
  have answer (results : List (Model × Bool)) :
      (results.find? (·.2 == false)).elim true (fun _ ↦ false) = results.all (·.2) := by
    rw [List.all_eq_not_any_not, ← List.isSome_find?]
    simp only [beq_false]
    cases results.find? (!·.2) <;> rfl
  rw [answer] at scanned
  exact scanned

/-- A sentence is satisfiable if it is true in some model. The models up to the first such
one are looked at. -/
theorem yields_isSatisfiableM (s : Sentence) :
    s.isSatisfiableM.Yields ((s.results s.models).any (·.2))
      ((upTo true (s.results s.models)).map report) := by
  have scanned := s.yields_scan_until
    (fun _ _ value ↦ if value then .done true else .yield false) true false (fun _ ↦ true)
    (fun _ _ ↦ rfl) (fun _ _ ↦ rfl) s.models
  have answer (results : List (Model × Bool)) :
      (results.find? (·.2 == true)).elim false (fun _ ↦ true) = results.any (·.2) := by
    rw [← List.isSome_find?]
    simp only [beq_true]
    cases results.find? (·.2) <;> rfl
  rw [answer] at scanned
  exact scanned

/-- No model satisfies a sentence exactly if it is not satisfiable. -/
theorem yields_isUnsatisfiableM (s : Sentence) :
    s.isUnsatisfiableM.Yields (!(s.results s.models).any (·.2))
      ((upTo true (s.results s.models)).map report) :=
  s.yields_isSatisfiableM.map (!·)

/-- A sentence is contingent if it is satisfiable and not valid. Only one that is not valid
is scanned for a model. -/
theorem yields_isContingentM (s : Sentence) :
    s.isContingentM.Yields
      (!(s.results s.models).all (·.2) && (s.results s.models).any (·.2))
      ((upTo false (s.results s.models)).map report ++
        if (s.results s.models).all (·.2) then []
        else (upTo true (s.results s.models)).map report) := by
  refine s.yields_isValidM.bind ?_
  cases (s.results s.models).all (·.2) with
  | true => exact .pure false
  | false => exact s.yields_isSatisfiableM

/-- The first satisfying model is that of the first true result. The models up to it are
looked at. -/
theorem yields_oneSatM (s : Sentence) :
    s.oneSatM.Yields (((s.results s.models).find? (·.2)).map Prod.fst)
      ((upTo true (s.results s.models)).map report) := by
  have scanned := s.yields_scan_until
    (fun _ m value ↦ if value then .done (some m) else .yield none) true none some
    (fun _ _ ↦ rfl) (fun _ _ ↦ rfl) s.models
  have answer (results : List (Model × Bool)) :
      (results.find? (·.2 == true)).elim none (some ·.1) =
        (results.find? (·.2)).map Prod.fst := by
    simp only [beq_true]
    cases results.find? (·.2) <;> rfl
  rw [answer] at scanned
  exact scanned

/-! ### Questions about all results -/

/-- The satisfying models are those of the true results. -/
theorem yields_allSatM (s : Sentence) :
    s.allSatM.Yields (((s.results s.models).filter (·.2)).map Prod.fst)
      ((s.results s.models).map report) := by
  have folded (results : List (Model × Bool)) (found : Array Model) :
      (results.foldl (fun found result ↦ if result.2 then found.push result.1 else found)
        found).toList = found.toList ++ (results.filter (·.2)).map Prod.fst := by
    induction results generalizing found with
    | nil => simp
    | cons result rest ih =>
      rw [List.foldl_cons, ih]
      cases h : result.2 <;> simp [h]
  have scanned := (s.yields_scan_all
    (fun found m value ↦ if value then found.push m else found) #[] s.models).map Array.toList
  rw [folded] at scanned
  exact scanned

/-- The number of satisfying models is that of the true results. -/
theorem yields_satCountM (s : Sentence) :
    s.satCountM.Yields ((s.results s.models).countP (·.2)) ((s.results s.models).map report) := by
  have folded (results : List (Model × Bool)) (count : Nat) :
      results.foldl (fun count result ↦ if result.2 then count + 1 else count) count =
        count + results.countP (·.2) := by
    induction results generalizing count with
    | nil => rfl
    | cons result rest ih =>
      rw [List.foldl_cons, ih]
      cases h : result.2 with
      | true => simp [h]; omega
      | false => simp [h]
  have scanned := s.yields_scan_all
    (fun count _ value ↦ if value then count + 1 else count) 0 s.models
  rw [folded, Nat.zero_add] at scanned
  exact scanned

/-- The values of a sentence are those of the results. -/
theorem yields_valuesM (s : Sentence) :
    s.valuesM.Yields ((s.results s.models).map Prod.snd) ((s.results s.models).map report) := by
  have folded (results : List (Model × Bool)) (values : Array Bool) :
      (results.foldl (fun values result ↦ values.push result.2) values).toList =
        values.toList ++ results.map Prod.snd := by
    induction results generalizing values with
    | nil => simp
    | cons result rest ih => rw [List.foldl_cons, ih]; simp
  have scanned := (s.yields_scan_all
    (fun values (_ : Model) value ↦ values.push value) #[] s.models).map Array.toList
  rw [folded] at scanned
  exact scanned

/-- Enumeration gives the values of the results and closes with a report of their number. -/
theorem yields_enumerateM (s : Sentence) :
    s.enumerateM.Yields ((s.results s.models).map Prod.snd)
      ((s.results s.models).map report ++
        [.enumerated (s.results s.models).length s.vars.length]) := by
  have counted : s.enumerateM.Yields _ _ :=
    s.yields_valuesM.bind ((JournalM.Yields.record _).bind (.pure _))
  rw [List.length_map] at counted
  exact counted

/-! ### Answers read off the results -/

/-- A sentence is valid if all its results are true. -/
theorem isValid_eq_all (s : Sentence) : s.isValid = (s.results s.models).all (·.2) :=
  s.yields_isValidM.value_eq

/-- A sentence is satisfiable if one of its results is true. -/
theorem isSatisfiable_eq_any (s : Sentence) : s.isSatisfiable = (s.results s.models).any (·.2) :=
  s.yields_isSatisfiableM.value_eq

/-- The enumerated values are those of the results. -/
theorem enumerate_eq_map (s : Sentence) : s.enumerate = (s.results s.models).map Prod.snd :=
  s.yields_enumerateM.value_eq

/-- The satisfying models are those of the true results. -/
theorem allSat_eq_filter (s : Sentence) :
    s.allSat = ((s.results s.models).filter (·.2)).map Prod.fst :=
  s.yields_allSatM.value_eq

/-- The satisfying models are counted by the true results. -/
theorem satCount_eq_countP (s : Sentence) : s.satCount = (s.results s.models).countP (·.2) :=
  s.yields_satCountM.value_eq

end Sentence

end Sentential
