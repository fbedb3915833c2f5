import Sentential.TruthTable

/-!
# Columns of a written truth table

The header, the rule and the lines of the rows are written apart from each other, and their
columns still stand under each other: each line is made of one cell for each name, all of the
name's width, with two bytes between the cells and four bytes behind them. So a column
starts after the same number of bytes in all lines, and the models and results can be read
back from the letters at these places.
-/

namespace Sentential.TruthTable

/-! ### Places in a line -/

/-- The part stands in the line behind so many bytes. -/
def StandsAt (line : String) (offset : Nat) (part : String) : Prop :=
  ∃ before after, line = before ++ (part ++ after) ∧ before.utf8ByteSize = offset

/-- Number of bytes before column number `i`. A column before it takes the bytes of its name,
a space and two bytes that set it apart. -/
def columnStart : List String → Nat → Nat
  | name :: names, i + 1 => name.utf8ByteSize + 3 + columnStart names i
  | _, _ => 0

/-- Number of bytes of all columns. Nothing sets the last of them apart. -/
def columnsWidth (names : List String) : Nat := columnStart names names.length - 2

variable {line part : String} {offset : Nat} {names : List String}

private theorem standsAt_zero (part after : String) : StandsAt (part ++ after) 0 part :=
  ⟨"", after, by simp, rfl⟩

private theorem StandsAt.append_left (h : StandsAt line offset part) (front : String) :
    StandsAt (front ++ line) (front.utf8ByteSize + offset) part := by
  obtain ⟨before, after, rfl, rfl⟩ := h
  exact ⟨front ++ before, after, by rw [String.append_assoc], String.utf8ByteSize_append⟩

/-- The start of a part stands where the part does. -/
theorem StandsAt.of_append {first second : String} (h : StandsAt line offset (first ++ second)) :
    StandsAt line offset first := by
  obtain ⟨before, after, rfl, hoffset⟩ := h
  exact ⟨before, second ++ after, by rw [String.append_assoc], hoffset⟩

/-- The end of a part stands behind its start. -/
theorem StandsAt.of_append_right {first second : String}
    (h : StandsAt line offset (first ++ second)) :
    StandsAt line (offset + first.utf8ByteSize) second := by
  obtain ⟨before, after, rfl, rfl⟩ := h
  refine ⟨before ++ first, after, ?_, String.utf8ByteSize_append⟩
  simp only [String.append_assoc]

/-- A column stands behind those to its left. -/
@[simp] theorem columnStart_cons_succ (name : String) (names : List String) (i : Nat) :
    columnStart (name :: names) (i + 1) = name.utf8ByteSize + 3 + columnStart names i := rfl

@[simp] private theorem columnsWidth_singleton (name : String) :
    columnsWidth [name] = name.utf8ByteSize + 1 := rfl

@[simp] private theorem columnsWidth_cons_cons (first second : String) (names : List String) :
    columnsWidth (first :: second :: names) =
      first.utf8ByteSize + 3 + columnsWidth (second :: names) := by
  simp only [columnsWidth, List.length_cons, columnStart_cons_succ]
  omega

/-! ### Lines made of cells -/

/-- A line of a table over the names: it holds the cell of each name in the column of the name
and the last part behind the columns, and it is one line. -/
structure Aligned (names : List String) (cell : String → String) (last line : String) : Prop where
  width : line.utf8ByteSize = columnsWidth names + 4
  single : '\n' ∉ line.toList
  column : ∀ i name, names[i]? = some name → StandsAt line (columnStart names i) (cell name)
  result : StandsAt line (columnsWidth names) last

section Cells

variable {cell : String → String} {gap last : String}

private theorem utf8ByteSize_intercalate (hgap : gap.utf8ByteSize = 2)
    (hcell : ∀ name ∈ names, (cell name).utf8ByteSize = name.utf8ByteSize + 1) :
    (gap.intercalate (names.map cell)).utf8ByteSize = columnsWidth names := by
  induction names with
  | nil => rfl
  | cons first names ih =>
    obtain ⟨hfirst, hrest⟩ := List.forall_mem_cons.1 hcell
    cases names with
    | nil => rw [List.map_cons, List.map_nil, String.intercalate_singleton, hfirst,
        columnsWidth_singleton]
    | cons second names =>
      have hcolumns := ih hrest
      rw [List.map_cons] at hcolumns
      rw [List.map_cons, List.map_cons, String.intercalate_cons_cons, String.utf8ByteSize_append,
        String.utf8ByteSize_append, hcolumns, hfirst, hgap, columnsWidth_cons_cons]

private theorem standsAt_intercalate (hgap : gap.utf8ByteSize = 2)
    (hcell : ∀ name ∈ names, (cell name).utf8ByteSize = name.utf8ByteSize + 1) {i : Nat}
    {name : String} (h : names[i]? = some name) :
    StandsAt (gap.intercalate (names.map cell) ++ last) (columnStart names i) (cell name) := by
  induction names generalizing i with
  | nil => cases h
  | cons first names ih =>
    obtain ⟨hfirst, hrest⟩ := List.forall_mem_cons.1 hcell
    cases names with
    | nil =>
      cases i with
      | zero =>
        cases h
        exact standsAt_zero _ last
      | succ i => cases h
    | cons second names =>
      rw [List.map_cons, List.map_cons, String.intercalate_cons_cons, ← List.map_cons,
        String.append_assoc, String.append_assoc]
      cases i with
      | zero =>
        cases h
        exact standsAt_zero _ _
      | succ i =>
        have behind := ((ih hrest h).append_left gap).append_left (cell first)
        rw [hfirst, hgap, ← Nat.add_assoc] at behind
        rw [columnStart_cons_succ]
        exact behind

private theorem not_mem_toList_intercalate {c : Char} (hgap : c ∉ gap.toList)
    (hcell : ∀ name ∈ names, c ∉ (cell name).toList) :
    c ∉ (gap.intercalate (names.map cell)).toList := by
  induction names with
  | nil => simp
  | cons first names ih =>
    obtain ⟨hfirst, hrest⟩ := List.forall_mem_cons.1 hcell
    cases names with
    | nil => simpa using hfirst
    | cons second names =>
      have hcolumns := ih hrest
      rw [List.map_cons] at hcolumns
      rw [List.map_cons, List.map_cons, String.intercalate_cons_cons]
      simp only [String.toList_append, List.mem_append, not_or]
      exact ⟨⟨hfirst, hgap⟩, hcolumns⟩

private theorem aligned_intercalate (hgap : gap.utf8ByteSize = 2 ∧ '\n' ∉ gap.toList)
    (hlast : last.utf8ByteSize = 4 ∧ '\n' ∉ last.toList)
    (hcell : ∀ name ∈ names,
      (cell name).utf8ByteSize = name.utf8ByteSize + 1 ∧ '\n' ∉ (cell name).toList) :
    Aligned names cell last (gap.intercalate (names.map cell) ++ last) := by
  have widths := fun name hname ↦ (hcell name hname).1
  have columns := utf8ByteSize_intercalate hgap.1 widths
  constructor
  · rw [String.utf8ByteSize_append, columns, hlast.1]
  · rw [String.toList_append, List.mem_append]
    rintro (h | h)
    · exact not_mem_toList_intercalate hgap.2 (fun name hname ↦ (hcell name hname).2) h
    · exact hlast.2 h
  · intro i name h
    exact standsAt_intercalate hgap.1 widths h
  · have behind := (standsAt_zero last "").append_left (gap.intercalate (names.map cell))
    rw [String.append_empty, Nat.add_zero, columns] at behind
    exact behind

end Cells

/-! ### The lines of a table -/

/-- Each character of a run takes its own bytes. -/
theorem utf8ByteSize_runOf (count : Nat) (c : Char) :
    (runOf count c).utf8ByteSize = count * c.utf8Size := by
  induction count with
  | zero => simp [runOf]
  | succ count ih =>
    rw [runOf, List.replicate_succ, String.ofList_cons, String.utf8ByteSize_append,
      String.utf8ByteSize_singleton, ← runOf, ih, Nat.succ_mul, Nat.add_comm]

private theorem not_mem_toList_runOf {c d : Char} (h : c ≠ d) (count : Nat) :
    c ∉ (runOf count d).toList := by
  rw [runOf, String.toList_ofList]
  intro hc
  exact h (List.eq_of_mem_replicate hc)

private theorem cell_eq {name : String} (h : name ≠ "") (value : Bool) :
    cell name value = truthLetter value ++ runOf name.utf8ByteSize ' ' := by
  obtain ⟨n, hn⟩ : ∃ n, name.utf8ByteSize = n + 1 :=
    Nat.exists_eq_succ_of_ne_zero (by simpa using h)
  rw [cell, hn, String.append_assoc]
  congr 1
  rw [Nat.add_sub_cancel, ← String.toList_inj]
  simp [runOf, List.replicate_succ']

/-- The letter of the value that a model gives a name, with spaces up to the end of the column. -/
def valueCell (m : Model) (name : String) : String :=
  truthLetter ((m.get? name).getD false) ++ runOf name.utf8ByteSize ' '

private theorem utf8ByteSize_truthLetter (value : Bool) : (truthLetter value).utf8ByteSize = 1 := by
  cases value <;> rfl

private theorem newline_not_mem_truthLetter (value : Bool) : '\n' ∉ (truthLetter value).toList := by
  cases value <;> decide

/-- The header is aligned, with the names in their columns. -/
theorem aligned_header (t : TruthTable) (hnames : ∀ name ∈ t.names, '\n' ∉ name.toList) :
    Aligned t.names (· ++ " ") "|| *" t.header := by
  refine aligned_intercalate ⟨rfl, by decide⟩ ⟨rfl, by decide⟩ ?_
  intro name hname
  refine ⟨String.utf8ByteSize_append, ?_⟩
  simpa using hnames name hname

/-- The rule is aligned, with dashes in the columns. -/
theorem aligned_rule (t : TruthTable) :
    Aligned t.names (fun name ↦ runOf (name.utf8ByteSize + 1) '-') "++--" t.rule := by
  refine aligned_intercalate ⟨rfl, by decide⟩ ⟨rfl, by decide⟩ ?_
  intro name _
  exact ⟨(utf8ByteSize_runOf _ '-').trans (Nat.mul_one _), not_mem_toList_runOf (by decide) _⟩

/-- The line of a row is aligned, with the letters of the values in their columns. -/
theorem aligned_rowLine (t : TruthTable) (hnames : ∀ name ∈ t.names, name ≠ "") (m : Model)
    (result : Bool) :
    Aligned t.names (valueCell m) ("|| " ++ truthLetter result) (t.rowLine m result) := by
  have cells : (t.names.map fun name ↦ cell name ((m.get? name).getD false)) =
      t.names.map (valueCell m) := by
    apply List.map_congr_left
    intro name hname
    exact cell_eq (hnames name hname) _
  rw [rowLine, cells, String.append_assoc]
  refine aligned_intercalate ⟨rfl, by decide⟩ ⟨?_, ?_⟩ ?_
  · rw [String.utf8ByteSize_append, utf8ByteSize_truthLetter]
    rfl
  · simpa using newline_not_mem_truthLetter result
  · intro name _
    constructor
    · rw [valueCell, String.utf8ByteSize_append, utf8ByteSize_truthLetter, utf8ByteSize_runOf,
        Nat.add_comm]
      exact congrArg (· + 1) (Nat.mul_one _)
    · rw [valueCell, String.toList_append, List.mem_append, not_or]
      exact ⟨newline_not_mem_truthLetter _, not_mem_toList_runOf (by decide) _⟩

end Sentential.TruthTable
