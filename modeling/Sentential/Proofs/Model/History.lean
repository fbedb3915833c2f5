import Mathlib.Data.List.Dedup
import Sentential.Proofs.Model.Bindings
import Sentential.Proofs.Text.ByteOrder

/-!
# Models made from histories of bindings

The same model is made by setting names one after another and by collecting all bindings at once,
sorted by name and of each name the last. It lists each bound name once, in the order of the bytes
of the names. So models are equal exactly if the last bindings of their histories agree.
-/

namespace Sentential.Model

/-! ### Setting names one after another -/

/-- Sets the names of bindings in order. Gives the answers of the sets and the model after them. -/
def setAll (m : Model) : List (String × Bool) → List (Option Bool) × Model
  | [] => ([], m)
  | binding :: rest =>
    let (answer, next) := m.getThenInsert? binding.1 binding.2
    let (answers, last) := next.setAll rest
    (answer :: answers, last)

private theorem setAll_append (m : Model) (before after : List (String × Bool)) :
    m.setAll (before ++ after) =
      ((m.setAll before).1 ++ ((m.setAll before).2.setAll after).1,
        ((m.setAll before).2.setAll after).2) := by
  induction before generalizing m with
  | nil => rfl
  | cons binding before ih =>
    simp only [List.cons_append, setAll, ih]

private theorem length_setAll (m : Model) (bindings : List (String × Bool)) :
    (m.setAll bindings).1.length = bindings.length := by
  induction bindings generalizing m with
  | nil => rfl
  | cons binding bindings ih => simp only [setAll, List.length_cons, ih]

private theorem snd_setAll (m : Model) (bindings : List (String × Bool)) :
    (m.setAll bindings).2 = bindings.foldl (fun m binding ↦ m.insert binding.1 binding.2) m := by
  induction bindings generalizing m with
  | nil => rfl
  | cons binding bindings ih => simp only [setAll, List.foldl_cons, ih, getThenInsert?]

private theorem getElem?_fst_setAll (m : Model) (before : List (String × Bool))
    (binding : String × Bool) (after : List (String × Bool)) :
    (m.setAll (before ++ binding :: after)).1[before.length]? =
      some ((m.setAll before).2.get? binding.1) := by
  rw [setAll_append, List.getElem?_append_right (Nat.le_of_eq (length_setAll m before)),
    length_setAll, Nat.sub_self]
  rfl

private theorem get?_snd_setAll_concat (m : Model) (before : List (String × Bool))
    (binding : String × Bool) (name : String) :
    (m.setAll (before ++ [binding])).2.get? name =
      if name = binding.1 then some binding.2 else (m.setAll before).2.get? name := by
  rw [setAll_append]
  exact get?_insert _ _ _ _

/-! ### Collecting bindings at once -/

/-- Whether a binding may stand before another in a list sorted by name. -/
def mayPrecede (a b : String × Bool) : Bool := !decide (b.1 < a.1)

/-- Of neighbours with the same name keeps the last. -/
def lastOfEach : List (String × Bool) → List (String × Bool)
  | [] => []
  | [binding] => [binding]
  | binding :: next :: rest =>
    if binding.1 = next.1 then lastOfEach (next :: rest)
    else binding :: lastOfEach (next :: rest)

/-- The bindings of a history all at once: sorted by name, those of the same name in the order that
they had, and then the last of each name. -/
def collect (bindings : List (String × Bool)) : List (String × Bool) :=
  lastOfEach (bindings.mergeSort mayPrecede)

private theorem mayPrecede_iff {a b : String × Bool} : mayPrecede a b = true ↔ a.1 ≤ b.1 := by
  rw [mayPrecede, Bool.not_eq_true', decide_eq_false_iff_not]
  exact String.not_lt

private theorem mayPrecede_trans (a b c : String × Bool) (hab : mayPrecede a b = true)
    (hbc : mayPrecede b c = true) : mayPrecede a c = true :=
  mayPrecede_iff.2 (String.le_trans (mayPrecede_iff.1 hab) (mayPrecede_iff.1 hbc))

private theorem mayPrecede_total (a b : String × Bool) :
    (mayPrecede a b || mayPrecede b a) = true := by
  simpa [mayPrecede_iff] using String.le_total a.1 b.1

private theorem filter_mergeSort (bindings : List (String × Bool)) (name : String) :
    (bindings.mergeSort mayPrecede).filter (fun binding ↦ binding.1 = name) =
      bindings.filter (fun binding ↦ binding.1 = name) := by
  have alike : (bindings.filter fun binding ↦ binding.1 = name).Pairwise
      fun a b ↦ mayPrecede a b = true := by
    apply List.pairwise_of_forall_mem_list
    intro a ha b hb
    have hname : a.1 = name := by simpa using (List.mem_filter.1 ha).2
    have hname' : b.1 = name := by simpa using (List.mem_filter.1 hb).2
    apply mayPrecede_iff.2
    exact hname.trans hname'.symm ▸ String.le_refl a.1
  have kept := List.sublist_mergeSort mayPrecede_trans mayPrecede_total alike List.filter_sublist
  have all := kept.filter fun binding ↦ binding.1 = name
  rw [List.filter_filter] at all
  simp only [Bool.and_self] at all
  have as_many := ((List.mergeSort_perm bindings mayPrecede).filter
    fun binding ↦ binding.1 = name).length_eq
  exact (all.eq_of_length as_many.symm).symm

private theorem get?_ofList_filter (bindings : List (String × Bool)) (name : String) :
    (ofList (bindings.filter fun binding ↦ binding.1 = name)).get? name =
      (ofList bindings).get? name := by
  induction bindings with
  | nil => rfl
  | cons binding bindings ih =>
    by_cases h : binding.1 = name
    · rw [List.filter_cons_of_pos (by simpa using h), get?_ofList_cons, get?_ofList_cons, ih]
    · rw [List.filter_cons_of_neg (by simpa using h), get?_ofList_cons, ih]
      simp [Ne.symm h]

private theorem ofList_mergeSort (bindings : List (String × Bool)) :
    ofList (bindings.mergeSort mayPrecede) = ofList bindings := by
  apply ext_get?
  intro name
  rw [← get?_ofList_filter, filter_mergeSort, get?_ofList_filter]

private theorem mem_of_mem_lastOfEach {bindings : List (String × Bool)} {binding : String × Bool}
    (h : binding ∈ lastOfEach bindings) : binding ∈ bindings := by
  induction bindings using lastOfEach.induct with
  | case1 => exact h
  | case2 => exact h
  | case3 first next rest same ih =>
    rw [lastOfEach, if_pos same] at h
    exact List.mem_cons_of_mem _ (ih h)
  | case4 first next rest differ ih =>
    rw [lastOfEach, if_neg differ] at h
    rcases List.mem_cons.1 h with rfl | h
    · exact List.mem_cons_self
    · exact List.mem_cons_of_mem _ (ih h)

private theorem lt_of_mem_of_pairwise {first next : String × Bool} {rest : List (String × Bool)}
    (sorted : (first :: next :: rest).Pairwise fun a b ↦ mayPrecede a b = true)
    (differ : first.1 ≠ next.1) {binding : String × Bool} (h : binding ∈ next :: rest) :
    first.1 < binding.1 := by
  rw [List.pairwise_cons, List.pairwise_cons] at sorted
  obtain ⟨hfirst, hnext, -⟩ := sorted
  have upToNext : first.1 ≤ next.1 := mayPrecede_iff.1 (hfirst next List.mem_cons_self)
  have fromNext : next.1 ≤ binding.1 := by
    rcases List.mem_cons.1 h with rfl | h
    · exact String.le_refl _
    · exact mayPrecede_iff.1 (hnext binding h)
  apply String.not_le.1
  intro back
  exact differ (String.le_antisymm upToNext (String.le_trans fromNext back))

private theorem pairwise_lastOfEach {bindings : List (String × Bool)}
    (sorted : bindings.Pairwise fun a b ↦ mayPrecede a b = true) :
    (lastOfEach bindings).Pairwise fun a b ↦ a.1 < b.1 := by
  induction bindings using lastOfEach.induct with
  | case1 => exact List.Pairwise.nil
  | case2 binding => exact List.pairwise_singleton _ _
  | case3 first next rest same ih =>
    rw [lastOfEach, if_pos same]
    exact ih sorted.tail
  | case4 first next rest differ ih =>
    rw [lastOfEach, if_neg differ, List.pairwise_cons]
    exact ⟨fun binding h ↦ lt_of_mem_of_pairwise sorted differ (mem_of_mem_lastOfEach h),
      ih sorted.tail⟩

private theorem lookup_lastOfEach {bindings : List (String × Bool)}
    (sorted : bindings.Pairwise fun a b ↦ mayPrecede a b = true) (name : String) :
    (lastOfEach bindings).lookup name = (ofList bindings).get? name := by
  induction bindings using lastOfEach.induct with
  | case1 => rfl
  | case2 binding => rw [get?_ofList]; rfl
  | case3 first next rest same ih =>
    rw [lastOfEach, if_pos same, ih sorted.tail, get?_ofList_cons first]
    by_cases h : name = first.1
    · have bound : ((ofList (next :: rest)).get? name).isSome = true := by
        rw [isSome_get?_ofList_iff, h, same]
        exact List.mem_cons_self
      rw [Option.or_of_isSome bound]
    · rw [if_neg h, Option.or_none]
  | case4 first next rest differ ih =>
    rw [lastOfEach, if_neg differ, List.lookup_cons, ih sorted.tail, get?_ofList_cons first]
    by_cases h : name = first.1
    · have unbound : (ofList (next :: rest)).get? name = none := by
        apply get?_ofList_eq_none
        intro hname
        obtain ⟨binding, hbinding, rfl⟩ := List.mem_map.1 hname
        exact String.ne_of_lt (lt_of_mem_of_pairwise sorted differ hbinding) h.symm
      simp [h, h ▸ unbound]
    · simp [h, beq_eq_false_iff_ne.2 h]

/-- Bindings collected at once are those of the model. -/
theorem bindings_ofList (bindings : List (String × Bool)) :
    (ofList bindings).bindings = collect bindings := by
  have sorted := List.pairwise_mergeSort mayPrecede_trans mayPrecede_total bindings
  have same : ofList bindings = ⟨collect bindings, pairwise_lastOfEach sorted⟩ := by
    apply ext_get?
    intro name
    rw [← ofList_mergeSort bindings, ← lookup_lastOfEach sorted]
    rfl
  rw [same]

/-! ### What a history leaves behind -/

/-- The last binding of the name in a list gives it the value. -/
def LastBinding (bindings : List (String × Bool)) (name : String) (value : Bool) : Prop :=
  ∃ before after, bindings = before ++ (name, value) :: after ∧ name ∉ after.map Prod.fst

/-- A model gives a name the value of its last binding. -/
theorem get?_ofList_eq_some_iff {bindings : List (String × Bool)} {name : String} {value : Bool} :
    (ofList bindings).get? name = some value ↔ LastBinding bindings name value := by
  rw [get?_ofList, List.lookup_eq_some_iff]
  constructor
  · rintro ⟨after, before, hsplit, hlast⟩
    refine ⟨before.reverse, after.reverse, ?_, ?_⟩
    · rw [← List.reverse_reverse bindings, hsplit]
      simp
    · intro hname
      obtain ⟨binding, hbinding, rfl⟩ := List.mem_map.1 hname
      simpa using hlast binding (List.mem_reverse.1 hbinding)
  · rintro ⟨before, after, rfl, hlast⟩
    refine ⟨after.reverse, before.reverse, by simp, ?_⟩
    intro binding hbinding
    apply bne_iff_ne.2
    rintro rfl
    exact hlast (List.mem_map_of_mem (List.mem_reverse.1 hbinding))

/-- What a model has of a history of bindings. -/
structure Records (m : Model) (bindings : List (String × Bool)) : Prop where
  value name value : m.get? name = some value ↔ LastBinding bindings name value
  unbound name : m.get? name = none ↔ name ∉ bindings.map Prod.fst
  listed name value : (name, value) ∈ m.bindings ↔ m.get? name = some value
  once name : (m.bindings.map Prod.fst).count name = if (m.get? name).isSome then 1 else 0
  increasing : (m.bindings.map Prod.fst).Pairwise fun a b ↦
    Text.BytesPrecede (Text.utf8Bytes a) (Text.utf8Bytes b)
  size : m.size = (bindings.map Prod.fst).dedup.length

private theorem nodup_map_fst_bindings (m : Model) : (m.bindings.map Prod.fst).Nodup := by
  rw [List.Nodup, List.pairwise_map]
  exact m.sorted.imp fun h ↦ String.ne_of_lt h

/-- The model of a list of bindings records the list. -/
theorem records_ofList (bindings : List (String × Bool)) : (ofList bindings).Records bindings where
  value name value := get?_ofList_eq_some_iff
  unbound name := by
    rw [← isSome_get?_ofList_iff, Option.not_isSome_iff_eq_none]
  listed name value := mem_bindings_iff
  once name := by
    rw [(nodup_map_fst_bindings _).count]
    simp only [mem_map_fst_bindings_iff]
  increasing := by
    rw [List.pairwise_map]
    exact (ofList bindings).sorted.imp fun h ↦ Text.bytesPrecede_iff.2 h
  size := by
    have same : ((ofList bindings).bindings.map Prod.fst).Perm (bindings.map Prod.fst).dedup := by
      rw [List.perm_ext_iff_of_nodup (nodup_map_fst_bindings _) (List.nodup_dedup _)]
      intro name
      rw [mem_map_fst_bindings_iff, isSome_get?_ofList_iff, List.mem_dedup]
    rw [← same.length_eq, List.length_map, size]

/-- Histories make the same model exactly if their last bindings agree. -/
theorem ofList_eq_iff {bindings other : List (String × Bool)} :
    ofList bindings = ofList other ↔
      ∀ name value, LastBinding bindings name value ↔ LastBinding other name value := by
  simp only [← get?_ofList_eq_some_iff]
  constructor
  · intro h name value
    rw [h]
  · intro h
    apply ext_get?
    intro name
    exact Option.ext (h name)

/-- A list of bindings makes the same model if its names are set in order and if it is collected at
once. Of each name the model has the last binding. Each set answers with the value that its name had
and changes the value of no other name. Lists make the same model exactly if it lists the same
bindings for both, and exactly if the last bindings of the lists agree. -/
theorem model_of_history (bindings other : List (String × Bool)) :
    (empty.setAll bindings).2 = ofList bindings ∧
    (ofList bindings).bindings = collect bindings ∧
    (ofList bindings).Records bindings ∧
    (∀ before binding after, bindings = before ++ binding :: after →
      (empty.setAll bindings).1[before.length]? = some ((empty.setAll before).2.get? binding.1) ∧
      ∀ name, (empty.setAll (before ++ [binding])).2.get? name =
        if name = binding.1 then some binding.2 else (empty.setAll before).2.get? name) ∧
    (ofList bindings = ofList other ↔ (ofList bindings).bindings = (ofList other).bindings) ∧
    (ofList bindings = ofList other ↔
      ∀ name value, LastBinding bindings name value ↔ LastBinding other name value) := by
  refine ⟨snd_setAll empty bindings, bindings_ofList bindings, records_ofList bindings, ?_,
    ⟨congrArg Model.bindings, ext_bindings⟩, ofList_eq_iff⟩
  rintro before binding after rfl
  exact ⟨getElem?_fst_setAll empty before binding after,
    get?_snd_setAll_concat empty before binding⟩

/-- The second set of a name answers with the value of the first, and the order of the sets does not
show in the model. -/
theorem model_of_history_with_repeated_name :
    let history := [("b", true), ("a", false), ("b", false)]
    let before := [("b", true), ("a", false)]
    history = before ++ ("b", false) :: [] ∧
      (empty.setAll history).1 = [none, none, some true] ∧
      (empty.setAll history).1[before.length]? = some ((empty.setAll before).2.get? "b") ∧
      (ofList history).get? "b" = some false ∧ (ofList history).size = 2 ∧
      ofList history = ofList [("a", false), ("b", false)] := by
  intro history before
  obtain ⟨-, -, -, sets, same, -⟩ := model_of_history history [("a", false), ("b", false)]
  have split : history = before ++ ("b", false) :: [] := rfl
  exact ⟨split, by decide +kernel, (sets before ("b", false) [] split).1, by decide +kernel,
    by decide +kernel, same.2 (by decide +kernel)⟩

end Sentential.Model
