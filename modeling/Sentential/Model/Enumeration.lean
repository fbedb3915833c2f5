import Sentential.Model.Basic

/-!
# Enumeration of models

All models over a list of names, one after the other. The first name varies
slowest and the last one fastest, and `true` comes before `false`. `remaining`
counts the models still to come; every step lowers it by exactly one.
-/

namespace Sentential

/-- The row after a row of truth values, in the order in which the last value
varies fastest and `true` comes before `false`. -/
def nextRow? : List Bool → Option (List Bool)
  | [] => none
  | value :: rest =>
    match nextRow? rest with
    | some rest' => some (value :: rest')
    | none => if value then some (false :: rest.map fun _ ↦ true) else none

/-- Number of rows after a row of truth values. -/
def rowsAfter : List Bool → Nat
  | [] => 0
  | value :: rest => (if value then Nat.pow 2 rest.length else 0) + rowsAfter rest

/-- The next row is as long as the row before it. -/
theorem length_of_nextRow? {row row' : List Bool} (h : nextRow? row = some row') :
    row'.length = row.length := by
  induction row generalizing row' with
  | nil => cases h
  | cons value rest ih =>
    simp only [nextRow?] at h
    split at h
    · next rest' hrest => cases h; simp [ih hrest]
    · split at h <;> cases h; simp

private theorem rowsAfter_all_true (row : List Bool) :
    rowsAfter (row.map fun _ ↦ true) + 1 = Nat.pow 2 row.length := by
  induction row with
  | nil => rfl
  | cons _ rest ih =>
    have doubled : Nat.pow 2 (rest.length + 1) = Nat.pow 2 rest.length * 2 := rfl
    simp only [List.map_cons, rowsAfter, List.length_map, List.length_cons, if_true]
    omega

private theorem rowsAfter_eq (row : List Bool) :
    rowsAfter row = (nextRow? row).elim 0 (rowsAfter · + 1) := by
  induction row with
  | nil => rfl
  | cons value rest ih =>
    cases h : nextRow? rest with
    | some rest' =>
      rw [h, Option.elim_some] at ih
      simp only [nextRow?, h, rowsAfter, ih, length_of_nextRow? h, Option.elim_some]
      omega
    | none =>
      rw [h, Option.elim_none] at ih
      cases value with
      | false => simp [nextRow?, h, rowsAfter, ih]
      | true => simpa [nextRow?, h, rowsAfter, ih] using (rowsAfter_all_true rest).symm

/-- A position in the enumeration of the models over a list of names: the row of
values of the model to come, or nothing when all models have been given. -/
structure Enumeration where
  names : List String
  row? : Option (List Bool)
  length_row : ∀ row ∈ row?, row.length = names.length
deriving DecidableEq

namespace Enumeration

/-- The enumeration of all models over the names, at its start. -/
def ofNames (names : List String) : Enumeration where
  names := names
  row? := some (names.map fun _ ↦ true)
  length_row := by simp

/-- Number of models still to come. -/
def remaining (e : Enumeration) : Nat :=
  match e.row? with
  | some row => rowsAfter row + 1
  | none => 0

/-- The next model, which gives the last value to a name that is listed more than
once, and the enumeration after it. -/
def next? (e : Enumeration) : Option (Model × Enumeration) :=
  match h : e.row? with
  | none => none
  | some row =>
    some (Model.ofList (e.names.zip row),
      { names := e.names
        row? := nextRow? row
        length_row := fun _ h' ↦
          (length_of_nextRow? (Option.mem_def.1 h')).trans (e.length_row row h) })

/-- A step of the enumeration leaves one model less to come. -/
theorem remaining_of_next? {e rest : Enumeration} {m : Model} (h : e.next? = some (m, rest)) :
    e.remaining = rest.remaining + 1 := by
  simp only [next?] at h
  split at h
  · cases h
  · next row hrow =>
    simp only [Option.some.injEq, Prod.mk.injEq] at h
    obtain ⟨-, rfl⟩ := h
    simp only [remaining, hrow, rowsAfter_eq row]
    cases nextRow? row <;> rfl

/-- The enumeration ends exactly when no model is left. -/
theorem next?_eq_none_iff (e : Enumeration) : e.next? = none ↔ e.remaining = 0 := by
  simp only [next?, remaining]
  split <;> simp_all

/-- A fresh enumeration has one model to come for each way to fill a row. -/
theorem remaining_ofNames (names : List String) :
    (ofNames names).remaining = Nat.pow 2 names.length := by
  simpa [remaining, ofNames] using rowsAfter_all_true (names.map fun _ ↦ true)

/-- The first models to come, at most `count` of them, and the enumeration after them. -/
def splitAt : Nat → Enumeration → List Model × Enumeration
  | 0, e => ([], e)
  | count + 1, e =>
    match e.next? with
    | none => ([], e)
    | some (m, rest) =>
      let (models, after) := splitAt count rest
      (m :: models, after)

/-- The first models to come, at most `count` of them. -/
def take (count : Nat) (e : Enumeration) : List Model := (e.splitAt count).1

/-- All models to come. -/
def toList (e : Enumeration) : List Model := e.take e.remaining

end Enumeration

end Sentential
