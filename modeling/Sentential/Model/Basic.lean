import Sentential.Truth

/-!
# Models

A model gives truth values to finitely many variable names. Its bindings are kept
in increasing order of their names, each name once, so two models are equal
exactly when they bind the same names to the same values.
-/

namespace Sentential

/-- An assignment of truth values to finitely many names. Names are ordered by
code points. -/
structure Model where
  bindings : List (String × Bool)
  sorted : bindings.Pairwise fun a b ↦ a.1 < b.1
deriving DecidableEq, Repr

namespace Model

/-- The model that binds no name. -/
def empty : Model := ⟨[], .nil⟩

/-- Number of bound names. -/
def size (m : Model) : Nat := m.bindings.length

/-- Whether no name is bound. -/
def isEmpty (m : Model) : Bool := m.bindings.isEmpty

/-- The value of a name, if the model binds it. -/
def get? (m : Model) (name : String) : Option Bool := m.bindings.lookup name

/-- Puts a binding at its place in a sorted list, over one of the same name. -/
def insertSorted (name : String) (value : Bool) : List (String × Bool) → List (String × Bool)
  | [] => [(name, value)]
  | binding :: rest =>
    if name < binding.1 then (name, value) :: binding :: rest
    else if binding.1 < name then binding :: insertSorted name value rest
    else (name, value) :: rest

private theorem mem_insertSorted {name : String} {value : Bool} {l : List (String × Bool)}
    {b : String × Bool} (h : b ∈ insertSorted name value l) : b = (name, value) ∨ b ∈ l := by
  induction l with
  | nil => simpa [insertSorted] using h
  | cons binding rest ih =>
    simp only [insertSorted] at h
    split at h
    · simpa using h
    · split at h
      · rcases List.mem_cons.1 h with rfl | h
        · simp
        · rcases ih h with rfl | h <;> simp [*]
      · rcases List.mem_cons.1 h with rfl | h <;> simp [*]

private theorem pairwise_insertSorted (name : String) (value : Bool) {l : List (String × Bool)}
    (h : l.Pairwise fun a b ↦ a.1 < b.1) :
    (insertSorted name value l).Pairwise fun a b ↦ a.1 < b.1 := by
  induction l with
  | nil => simp [insertSorted]
  | cons binding rest ih =>
    obtain ⟨hhead, htail⟩ := List.pairwise_cons.1 h
    simp only [insertSorted]
    split
    · next lt =>
      refine List.pairwise_cons.2 ⟨fun b hb ↦ ?_, h⟩
      rcases List.mem_cons.1 hb with rfl | hb
      · exact lt
      · exact String.lt_trans lt (hhead b hb)
    · next notLt =>
      split
      · next gt =>
        refine List.pairwise_cons.2 ⟨fun b hb ↦ ?_, ih htail⟩
        rcases mem_insertSorted hb with rfl | hb
        · exact gt
        · exact hhead b hb
      · next notGt =>
        have same : name = binding.1 :=
          String.le_antisymm (String.not_lt.1 notGt) (String.not_lt.1 notLt)
        exact List.pairwise_cons.2 ⟨fun b hb ↦ same ▸ hhead b hb, htail⟩

/-- Binds a name, over the value that it may have had. -/
def insert (m : Model) (name : String) (value : Bool) : Model :=
  ⟨insertSorted name value m.bindings, pairwise_insertSorted name value m.sorted⟩

/-- Binds a name and gives the value that it had before. -/
def getThenInsert? (m : Model) (name : String) (value : Bool) : Option Bool × Model :=
  (m.get? name, m.insert name value)

/-- The model of a list of bindings; the last binding of a name wins. -/
def ofList (bindings : List (String × Bool)) : Model :=
  bindings.foldl (fun m binding ↦ m.insert binding.1 binding.2) empty

/-- Text of the model: its bindings in order, in braces. -/
def render (m : Model) : String :=
  let parts := m.bindings.map fun binding ↦ binding.1 ++ "=" ++ truthWord binding.2
  "\x7b" ++ ", ".intercalate parts ++ "\x7d"

private theorem lookup_cons_eq_ite (x : String) (binding : String × Bool)
    (l : List (String × Bool)) :
    (binding :: l).lookup x = if x = binding.1 then some binding.2 else l.lookup x := by
  rw [List.lookup_cons]
  by_cases h : x = binding.1
  · simp [h]
  · simp [h, beq_eq_false_iff_ne.2 h]

private theorem lookup_insertSorted (name : String) (value : Bool) (x : String)
    (l : List (String × Bool)) :
    (insertSorted name value l).lookup x = if x = name then some value else l.lookup x := by
  induction l with
  | nil => exact lookup_cons_eq_ite x (name, value) []
  | cons binding rest ih =>
    simp only [insertSorted]
    split
    · exact lookup_cons_eq_ite x (name, value) (binding :: rest)
    · split
      · next gt =>
        rw [lookup_cons_eq_ite, lookup_cons_eq_ite, ih]
        by_cases h : x = name
        · have differ : name ≠ binding.1 := fun same ↦ String.lt_irrefl name (same ▸ gt)
          simp [h, differ]
        · simp [h]
      · next notLt notGt =>
        have same : name = binding.1 :=
          String.le_antisymm (String.not_lt.1 notGt) (String.not_lt.1 notLt)
        rw [lookup_cons_eq_ite, lookup_cons_eq_ite, same]
        split <;> rfl

/-- The empty model gives no name a value. -/
@[simp] theorem get?_empty (x : String) : empty.get? x = none := rfl

/-- Binding a name changes the value of that name alone. -/
@[simp] theorem get?_insert (m : Model) (name : String) (value : Bool) (x : String) :
    (m.insert name value).get? x = if x = name then some value else m.get? x :=
  lookup_insertSorted name value x m.bindings

end Model

end Sentential
