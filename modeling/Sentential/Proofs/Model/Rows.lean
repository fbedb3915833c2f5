import Sentential.Model.Enumeration
import Sentential.Proofs.Model.Bindings

/-!
# The list of enumerated models

The enumeration of the models over some names gives one model for each row of truth values,
in the order of `rows`: the first value varies slowest, and `true` comes before `false`.
-/

namespace Sentential

/-- All rows of so many truth values. -/
def rows : Nat → List (List Bool)
  | 0 => [[]]
  | n + 1 => (rows n).map (true :: ·) ++ (rows n).map (false :: ·)

-- A row and all rows after it.
private def rowsFrom : List Bool → List (List Bool)
  | [] => [[]]
  | value :: rest =>
    (rowsFrom rest).map (value :: ·) ++
      if value then (rows rest.length).map (false :: ·) else []

/-- The rows are those of the right length. -/
theorem mem_rows {n : Nat} {row : List Bool} : row ∈ rows n ↔ row.length = n := by
  induction n generalizing row with
  | zero => simp [rows]
  | succ n ih =>
    rw [rows, List.mem_append, List.mem_map, List.mem_map]
    constructor
    · rintro (⟨rest, hrest, rfl⟩ | ⟨rest, hrest, rfl⟩)
      · rw [List.length_cons, ih.1 hrest]
      · rw [List.length_cons, ih.1 hrest]
    · intro h
      cases row with
      | nil => cases h
      | cons value rest =>
        have hrest : rest ∈ rows n := ih.2 (Nat.succ.inj h)
        cases value with
        | true => exact .inl ⟨rest, hrest, rfl⟩
        | false => exact .inr ⟨rest, hrest, rfl⟩

private theorem rowsFrom_all_true {α : Type} (places : List α) :
    rowsFrom (places.map fun _ ↦ true) = rows places.length := by
  induction places with
  | nil => rfl
  | cons place rest ih =>
    rw [List.map_cons, rowsFrom, ih, if_pos rfl, List.length_map]
    rfl

private theorem rowsFrom_eq (row : List Bool) :
    rowsFrom row = row :: (nextRow? row).elim [] rowsFrom := by
  induction row with
  | nil => rfl
  | cons value rest ih =>
    rw [rowsFrom, ih]
    cases h : nextRow? rest with
    | some rest' =>
      have next : nextRow? (value :: rest) = some (value :: rest') := by simp [nextRow?, h]
      rw [next, Option.elim_some, Option.elim_some, rowsFrom, length_of_nextRow? h]
      rfl
    | none =>
      cases value with
      | true =>
        have next : nextRow? (true :: rest) = some (false :: rest.map fun _ ↦ true) := by
          simp [nextRow?, h]
        rw [next, Option.elim_some, Option.elim_none, rowsFrom, rowsFrom_all_true]
        simp
      | false =>
        have next : nextRow? (false :: rest) = none := by simp [nextRow?, h]
        rw [next]
        rfl

/-- The value at the first place of a row is of no account for the names listed after it, be
the first name among them or not. -/
theorem Model.get?_ofList_zip_cons {names : List String} {row : List Bool} {name : String}
    (first : String) (value : Bool) (hlength : row.length = names.length) (hname : name ∈ names) :
    (ofList ((first :: names).zip (value :: row))).get? name =
      (ofList (names.zip row)).get? name := by
  have bound : ((ofList (names.zip row)).get? name).isSome = true := by
    rwa [isSome_get?_ofList_iff, List.map_fst_zip (Nat.le_of_eq hlength.symm)]
  obtain ⟨found, hfound⟩ := Option.isSome_iff_exists.1 bound
  rw [List.zip_cons_cons, get?_ofList_cons, hfound]
  rfl

namespace Enumeration

/-- What holds at the end, and before each call after which it holds, always holds. -/
@[elab_as_elim]
theorem next_induction {motive : Enumeration → Prop}
    (ended : ∀ e, e.next? = none → motive e)
    (step : ∀ e m rest, e.next? = some (m, rest) → motive rest → motive e)
    (e : Enumeration) : motive e := by
  induction hn : e.remaining generalizing e with
  | zero => exact ended e ((next?_eq_none_iff e).2 hn)
  | succ n ih =>
    cases hnext : e.next? with
    | none => exact ended e hnext
    | some next =>
      obtain ⟨m, rest⟩ := next
      have less := remaining_of_next? hnext
      exact step e m rest hnext (ih rest (by omega))

/-- The models to come start with the next one. -/
theorem toList_of_next? {e rest : Enumeration} {m : Model} (h : e.next? = some (m, rest)) :
    e.toList = m :: rest.toList := by
  rw [toList, take, remaining_of_next? h, splitAt, h]
  rfl

/-- No model is to come at the end. -/
theorem toList_of_next?_eq_none {e : Enumeration} (h : e.next? = none) : e.toList = [] := by
  rw [toList, (next?_eq_none_iff e).1 h]
  rfl

/-- The models to come are as many as counted. -/
theorem length_toList (e : Enumeration) : e.toList.length = e.remaining := by
  induction e using next_induction with
  | ended e h => rw [toList_of_next?_eq_none h, (next?_eq_none_iff e).1 h, List.length_nil]
  | step e m rest h ih => rw [toList_of_next? h, List.length_cons, ih, remaining_of_next? h]

private theorem next?_of_row? {e : Enumeration} {row : List Bool} (h : e.row? = some row) :
    ∃ rest, e.next? = some (Model.ofList (e.names.zip row), rest) ∧ rest.names = e.names ∧
      rest.row? = nextRow? row := by
  unfold next?
  split
  · next h' => rw [h'] at h; cases h
  · next row' h' =>
    rw [h'] at h
    cases h
    exact ⟨_, rfl, rfl, rfl⟩

private theorem toList_eq (e : Enumeration) :
    e.toList = (e.row?.elim [] rowsFrom).map fun row ↦ Model.ofList (e.names.zip row) := by
  induction e using next_induction with
  | ended e ended =>
    rw [toList_of_next?_eq_none ended]
    cases hrow : e.row? with
    | none => rfl
    | some row =>
      obtain ⟨rest, hnext, -, -⟩ := next?_of_row? hrow
      rw [hnext] at ended
      cases ended
  | step e m rest hnext ih =>
    rw [toList_of_next? hnext, ih]
    cases hrow : e.row? with
    | none =>
      have less := remaining_of_next? hnext
      rw [remaining, hrow] at less
      cases less
    | some row =>
      obtain ⟨rest', hnext', hnames, hrest⟩ := next?_of_row? hrow
      rw [hnext] at hnext'
      cases hnext'
      rw [hnames, hrest, Option.elim_some, rowsFrom_eq row]
      rfl

/-- The models over some names in order. -/
theorem toList_ofNames (names : List String) :
    (ofNames names).toList =
      (rows names.length).map fun row ↦ Model.ofList (names.zip row) := by
  rw [toList_eq]
  change (rowsFrom (names.map fun _ ↦ true)).map _ = _
  rw [rowsFrom_all_true]
  rfl

/-- Every function on names agrees with some enumerated model on the enumerated names. -/
theorem exists_mem_toList (names : List String) (value : String → Bool) :
    ∃ m ∈ (ofNames names).toList, ∀ name ∈ names, m.get? name = some (value name) := by
  refine ⟨Model.ofList (names.map fun x ↦ (x, value x)), ?_, ?_⟩
  · rw [toList_ofNames, List.mem_map]
    refine ⟨names.map value, mem_rows.2 (List.length_map value), ?_⟩
    rw [List.map_prod_left_eq_zip]
  · intro name hname
    exact Model.get?_ofList_map value hname

/-- Enumerated models bind the enumerated names. -/
theorem isSome_get?_of_mem_toList {names : List String} {m : Model}
    (h : m ∈ (ofNames names).toList) : ∀ name ∈ names, (m.get? name).isSome := by
  rw [toList_ofNames, List.mem_map] at h
  obtain ⟨row, hrow, rfl⟩ := h
  intro name hname
  rwa [Model.isSome_get?_ofList_iff, List.map_fst_zip (Nat.le_of_eq (mem_rows.1 hrow).symm)]

end Enumeration

end Sentential
