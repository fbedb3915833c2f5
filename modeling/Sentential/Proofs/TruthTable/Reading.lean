import Sentential.Proofs.Model.Calls
import Sentential.Proofs.TruthTable.Layout
import Sentential.Proofs.TruthTable.Rows

/-!
# Reading a written truth table

The text of a truth table is its lines, one for the header, one for the rule and one for each
model. Whoever knows the widths of the columns reads the models and the results back from the
lines of the rows.
-/

namespace Sentential

private theorem Model.ofList_zip_values {m : Model} {names : List String}
    (h : m.BindsExactly names) :
    ofList (names.zip (names.map fun name ↦ (m.get? name).getD false)) = m := by
  apply eq_of_bindsExactly (bindsExactly_ofList_zip (List.length_map _)) h
  intro name hname
  obtain ⟨value, hvalue⟩ := Option.isSome_iff_exists.1 ((h name).2 hname)
  rw [← List.map_prod_left_eq_zip,
    get?_ofList_map (fun name ↦ (m.get? name).getD false) hname, hvalue]
  rfl

namespace TruthTable

/-! ### Letters in a line -/

/-- The truth value whose letter stands in the line behind so many bytes. -/
def letterAt? (line : String) (offset : Nat) : Option Bool :=
  match line.toByteArray.data[offset]? with
  | none => none
  | some byte =>
    if byte = 'T'.toUInt8 then some true
    else if byte = 'F'.toUInt8 then some false
    else none

/-- The truth values whose letters head the columns of the names, of which the first starts
behind so many bytes. -/
def lettersAt? (line : String) : List String → Nat → Option (List Bool)
  | [], _ => some []
  | name :: names, offset => do
    let value ← letterAt? line offset
    let values ← lettersAt? line names (offset + (name.utf8ByteSize + 3))
    return value :: values

/-- Reads the line of a row of a table over the names: the model and its result. -/
def readRow? (names : List String) (line : String) : Option (Model × Bool) := do
  let values ← lettersAt? line names 0
  let result ← letterAt? line (columnsWidth names + 3)
  return (Model.ofList (names.zip values), result)

variable {line : String} {names : List String}

private theorem getElem?_toByteArray {part : String} (before after : String) (h : part ≠ "") :
    (before ++ (part ++ after)).toByteArray.data[before.utf8ByteSize]? =
      part.toByteArray.data[0]? := by
  have size (s : String) : s.toByteArray.data.size = s.utf8ByteSize := String.size_toByteArray
  have positive : 0 < part.toByteArray.data.size := by
    rw [size]
    exact Nat.pos_of_ne_zero (by simpa using h)
  rw [String.toByteArray_append, String.toByteArray_append, ByteArray.data_append,
    ByteArray.data_append, ← size before, Array.getElem?_append_right (Nat.le_refl _),
    Nat.sub_self, Array.getElem?_append_left positive]

private theorem letterAt?_of_standsAt {offset : Nat} {value : Bool}
    (h : StandsAt line offset (truthLetter value)) : letterAt? line offset = some value := by
  obtain ⟨before, after, rfl, rfl⟩ := h
  have letter : truthLetter value ≠ "" := by cases value <;> decide
  rw [letterAt?, getElem?_toByteArray before after letter]
  cases value <;> rfl

private theorem lettersAt?_of_standsAt {value : String → Bool} {offset : Nat}
    (h : ∀ i name, names[i]? = some name →
      StandsAt line (offset + columnStart names i) (truthLetter (value name))) :
    lettersAt? line names offset = some (names.map value) := by
  induction names generalizing offset with
  | nil => rfl
  | cons name names ih =>
    have here : letterAt? line offset = some (value name) :=
      letterAt?_of_standsAt (h 0 name rfl)
    have later : lettersAt? line names (offset + (name.utf8ByteSize + 3)) =
        some (names.map value) := by
      apply ih
      intro i other hother
      have stands := h (i + 1) other hother
      rwa [columnStart_cons_succ, ← Nat.add_assoc] at stands
    rw [lettersAt?, here, later]
    rfl

/-- The row of an aligned line is read back. -/
theorem readRow?_of_aligned {m : Model} {result : Bool} (hm : m.BindsExactly names)
    (h : Aligned names (valueCell m) ("|| " ++ truthLetter result) line) :
    readRow? names line = some (m, result) := by
  have values : lettersAt? line names 0 =
      some (names.map fun name ↦ (m.get? name).getD false) := by
    apply lettersAt?_of_standsAt
    intro i name hname
    rw [Nat.zero_add]
    exact (h.column i name hname).of_append
  have last : letterAt? line (columnsWidth names + 3) = some result :=
    letterAt?_of_standsAt h.result.of_append_right
  rw [readRow?, values, last]
  exact congrArg (fun model ↦ some (model, result)) (Model.ofList_zip_values hm)

/-! ### The lines and the text -/

/-- How the lines of a table over the names look: one for the header, one for the rule and one for
each model, all of the same width and with the columns at the same places. The header has the
names in the columns, the rule has dashes, and the line of a model has the letters of the
values that it gives the names, and behind the columns the letter of its result. -/
structure Layout (names : List String) (results : List Bool) (lines : List String) : Prop where
  count : lines.length = 2 + Nat.pow 2 names.length
  even : ∀ line ∈ lines, line.utf8ByteSize = columnsWidth names + 4 ∧ '\n' ∉ line.toList
  header : ∃ line, lines[0]? = some line ∧ StandsAt line (columnsWidth names) "|| *" ∧
    ∀ i name, names[i]? = some name → StandsAt line (columnStart names i) (name ++ " ")
  rule : ∃ line, lines[1]? = some line ∧ StandsAt line (columnsWidth names) "++--" ∧
    ∀ i name, names[i]? = some name →
      StandsAt line (columnStart names i) (runOf (name.utf8ByteSize + 1) '-')
  row : ∀ k, k < Nat.pow 2 names.length → ∃ line m result, lines[k + 2]? = some line ∧
    (Enumeration.ofNames names).answer? k = some m ∧ results[k]? = some result ∧
    StandsAt line (columnsWidth names) ("|| " ++ truthLetter result) ∧
    ∀ i name, names[i]? = some name → ∃ value, m.get? name = some value ∧
      StandsAt line (columnStart names i) (truthLetter value ++ runOf name.utf8ByteSize ' ')

variable {results : List Bool}

/-- The lines of a table with one result for each model have the layout of the table. -/
theorem layout_lines (full : results.length = Nat.pow 2 names.length)
    (hnames : ∀ name ∈ names, name ≠ "" ∧ '\n' ∉ name.toList) :
    Layout names results (TruthTable.mk names results).lines := by
  let t : TruthTable := ⟨names, results⟩
  have header := t.aligned_header fun name hname ↦ (hnames name hname).2
  have rule := t.aligned_rule
  have rowLine := t.aligned_rowLine fun name hname ↦ (hnames name hname).1
  have length_rows : t.rows.length = Nat.pow 2 names.length := by
    rw [← List.length_map Prod.snd, map_snd_rows (Nat.le_of_eq full), full]
  constructor
  · change (t.rows.map fun row ↦ t.rowLine row.1 row.2).length + 1 + 1 = _
    rw [List.length_map, length_rows, Nat.add_comm 2]
  · intro line hline
    rcases List.mem_cons.1 hline with rfl | hline
    · exact ⟨header.width, header.single⟩
    rcases List.mem_cons.1 hline with rfl | hline
    · exact ⟨rule.width, rule.single⟩
    obtain ⟨⟨m, result⟩, -, rfl⟩ := List.mem_map.1 hline
    exact ⟨(rowLine m result).width, (rowLine m result).single⟩
  · exact ⟨t.header, rfl, header.result, header.column⟩
  · exact ⟨t.rule, rfl, rule.result, rule.column⟩
  · intro k hk
    obtain ⟨m, hm⟩ : ∃ m, (Enumeration.ofNames names).toList[k]? = some m :=
      ⟨_, List.getElem?_eq_getElem (by rwa [Enumeration.length_toList_ofNames])⟩
    obtain ⟨result, hresult⟩ : ∃ result, results[k]? = some result :=
      ⟨_, List.getElem?_eq_getElem (by rwa [full])⟩
    have hexact := Enumeration.bindsExactly_of_mem_toList (List.mem_of_getElem? hm)
    have hrow : t.rows[k]? = some (m, result) := List.getElem?_zip_eq_some.2 ⟨hm, hresult⟩
    refine ⟨t.rowLine m result, m, result, ?_, ?_, hresult, (rowLine m result).result, ?_⟩
    · change (t.rows.map fun row ↦ t.rowLine row.1 row.2)[k]? = _
      rw [List.getElem?_map, hrow]
      rfl
    · rw [Enumeration.answer?_eq, hm]
    · intro i name hname
      obtain ⟨value, hvalue⟩ :=
        Option.isSome_iff_exists.1 ((hexact name).2 (List.mem_of_getElem? hname))
      refine ⟨value, hvalue, ?_⟩
      have stands := (rowLine m result).column i name hname
      rwa [valueCell, hvalue] at stands

/-- The rows are read back from the lines behind the rule. -/
theorem map_readRow?_lines (t : TruthTable) (hnames : ∀ name ∈ t.names, name ≠ "") :
    (t.lines.drop 2).map (readRow? t.names) = t.rows.map some := by
  change (t.rows.map fun row ↦ t.rowLine row.1 row.2).map (readRow? t.names) = _
  rw [List.map_map]
  apply List.map_congr_left
  rintro ⟨m, result⟩ hrow
  have hm : m ∈ (Enumeration.ofNames t.names).toList := (List.of_mem_zip hrow).1
  exact readRow?_of_aligned (Enumeration.bindsExactly_of_mem_toList hm)
    (t.aligned_rowLine hnames m result)

/-- A name that is too wide for its column to be filled up keeps the table from being written. -/
theorem render_of_wide {t : TruthTable} {name : String} (hname : name ∈ t.names)
    (wide : maxColumn < name.utf8ByteSize) : t.render = .error .columnTooWide := by
  apply if_neg
  rw [List.all_eq_true]
  intro narrow
  have fits := of_decide_eq_true (narrow name hname)
  omega

/-- Let there be fewer names than a word has bits, none of them empty or with an end of line in
it, and one result for each model. Then there is a table of them on every machine. If no name
is wider than the widest column that can be filled up, the table is written as lines that each
end with an end of line and have the layout of the table, and all models and all results are
read back from the lines behind the rule. If some name is wider, the table is not written. -/
theorem render_of_one_result_for_each_model (overflow : Overflow) (names : List String)
    (results : List Bool) (few : names.length < wordBits)
    (full : results.length = Nat.pow 2 names.length)
    (hnames : ∀ name ∈ names, name ≠ "" ∧ '\n' ∉ name.toList) :
    ∃ t, ofResults names results overflow = .ok t ∧
      ((∀ name ∈ names, name.utf8ByteSize ≤ maxColumn) →
        ∃ lines, t.render = .ok (String.join (lines.map (· ++ "\n"))) ∧
          Layout names results lines ∧
          (lines.drop 2).map (readRow? names) =
            ((Enumeration.ofNames names).toList.zip results).map some) ∧
      ((∃ name ∈ names, maxColumn < name.utf8ByteSize) →
        t.render = .error .columnTooWide) := by
  have countable : results.length < Nat.pow 2 wordBits := by
    rw [full]
    exact Nat.pow_lt_pow_right (by decide) few
  refine ⟨⟨names, results⟩, ?_, ?_, ?_⟩
  · rw [ofResults_of_counted (.inr few) countable, if_pos full]
  · intro narrow
    refine ⟨_, if_pos ?_, layout_lines full hnames,
      map_readRow?_lines ⟨names, results⟩ fun name hname ↦ (hnames name hname).1⟩
    simpa using narrow
  · rintro ⟨name, hname, wide⟩
    exact render_of_wide hname wide

/-- Over three names, one of them listed twice and two bytes wide, all lines have the same
width, and the values of the names are in them behind `0`, `5` and `9` bytes. -/
theorem render_of_one_result_for_each_model_over_repeated_name :
    let names := ["é", "b", "é"]
    let results := [true, false, true, true, false, true, false, false]
    names.length < wordBits ∧ results.length = Nat.pow 2 names.length ∧
    (∀ name ∈ names, name ≠ "" ∧ '\n' ∉ name.toList) ∧
    (∀ name ∈ names, name.utf8ByteSize ≤ maxColumn) ∧
    [columnStart names 0, columnStart names 1, columnStart names 2, columnsWidth names] =
      [0, 5, 9, 12] ∧
    ∃ t lines, ofResults names results = .ok t ∧
      t.render = .ok (String.join (lines.map (· ++ "\n"))) ∧ Layout names results lines ∧
      (lines.drop 2).map (readRow? names) =
        ((Enumeration.ofNames names).toList.zip results).map some := by
  intro names results
  have few : names.length < wordBits := by decide
  have full : results.length = Nat.pow 2 names.length := by decide
  have hnames : ∀ name ∈ names, name ≠ "" ∧ '\n' ∉ name.toList := by decide
  have narrow : ∀ name ∈ names, name.utf8ByteSize ≤ maxColumn := by decide
  obtain ⟨t, made, written, -⟩ :=
    render_of_one_result_for_each_model .checked names results few full hnames
  obtain ⟨lines, hrender, hlayout, hread⟩ := written narrow
  exact ⟨few, full, hnames, narrow, by decide, t, lines, made, hrender, hlayout, hread⟩

example : (TruthTable.mk ["a", "bb"] [true, false, false, false]).text =
    "a | bb || *\n--+----++--\nT | T  || T\nT | F  || F\nF | T  || F\nF | F  || F\n" := by
  decide +kernel

/-- The table over one name of `65536` letters exists and is not written. -/
theorem exists_ofResults_without_render :
    ∃ t, ofResults [String.ofList (List.replicate 65536 'a')] [true, false] = .ok t ∧
      t.render = .error .columnTooWide := by
  have size : (String.ofList (List.replicate 65536 'a')).utf8ByteSize = 65536 :=
    utf8ByteSize_runOf 65536 'a'
  refine ⟨⟨_, _⟩, rfl, render_of_wide (List.mem_singleton_self _) ?_⟩
  rw [size]
  decide

end TruthTable

end Sentential
