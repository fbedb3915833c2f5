import Mathlib.Data.List.Count
import Mathlib.Data.List.Dedup
import Sentential.Proofs.Model.Digits

/-!
# Calls of an enumeration

An enumeration is asked for one model after the other. The calls give the listed models in
order and then nothing any more, so each call leaves one model less to come. Over names with
repeats a model is given once for each way to fill the places that do not count.
-/

namespace Sentential

namespace Enumeration

/-! ### One call after the other -/

/-- The enumeration after one call. At its end it stays as it is. -/
def advance (e : Enumeration) : Enumeration := e.next?.elim e Prod.snd

/-- The enumeration after so many calls. -/
def after (e : Enumeration) : Nat → Enumeration
  | 0 => e
  | k + 1 => (e.after k).advance

/-- The model that call number `k` gives, if it gives one. The first call has number `0`. -/
def answer? (e : Enumeration) (k : Nat) : Option Model := (e.after k).next?.map Prod.fst

private theorem map_fst_next? (e : Enumeration) : e.next?.map Prod.fst = e.toList.head? := by
  cases h : e.next? with
  | none =>
    rw [toList_of_next?_eq_none h]
    rfl
  | some next =>
    obtain ⟨m, rest⟩ := next
    rw [toList_of_next? h]
    rfl

/-- A call leaves the other models to come. -/
theorem toList_advance (e : Enumeration) : e.advance.toList = e.toList.tail := by
  rw [advance]
  cases h : e.next? with
  | none =>
    rw [Option.elim_none, toList_of_next?_eq_none h]
    rfl
  | some next =>
    obtain ⟨m, rest⟩ := next
    rw [Option.elim_some, toList_of_next? h]
    rfl

/-- So many calls leave the models after so many. -/
theorem toList_after (e : Enumeration) (k : Nat) : (e.after k).toList = e.toList.drop k := by
  induction k with
  | zero => rfl
  | succ k ih => rw [after, toList_advance, ih, List.tail_drop]

/-- Call number `k` gives model number `k` of those to come. -/
theorem answer?_eq (e : Enumeration) (k : Nat) : e.answer? k = e.toList[k]? := by
  rw [answer?, map_fst_next?, toList_after, List.head?_drop]

/-- Each call lowers the count of the models to come, down to nothing. -/
theorem remaining_after (e : Enumeration) (k : Nat) :
    (e.after k).remaining = e.remaining - k := by
  rw [← length_toList, toList_after, List.length_drop, length_toList]

private theorem isSome_answer?_iff (e : Enumeration) (k : Nat) :
    (e.answer? k).isSome = true ↔ k < e.remaining := by
  rw [answer?_eq, isSome_getElem?, length_toList]

private theorem countP_answer? (e : Enumeration) (m : Model) :
    (List.range e.remaining).countP (fun k ↦ e.answer? k = some m) = e.toList.count m := by
  have answers : (List.range e.remaining).map e.answer? = e.toList.map some := by
    apply List.ext_getElem
    · rw [List.length_map, List.length_range, List.length_map, length_toList]
    · intro k _ hk
      rw [List.length_map] at hk
      rw [List.getElem_map, List.getElem_range, List.getElem_map, answer?_eq,
        List.getElem?_eq_getElem hk]
  rw [← List.count_map_of_injective e.toList some (Option.some_injective Model) m, ← answers,
    List.count, List.countP_map]
  apply List.countP_congr
  intro k _
  simp

end Enumeration

/-! ### Repeated names -/

namespace Model

/-- The model of the row has the values of the function at the names. -/
def RowGives (names : List String) (value : String → Bool) (row : List Bool) : Prop :=
  ∀ name ∈ names, (ofList (names.zip row)).get? name = some (value name)

/-- Whether a row gives the values is checked name by name. -/
instance (names : List String) (value : String → Bool) : DecidablePred (RowGives names value) :=
  fun _ ↦ inferInstanceAs (Decidable (∀ name ∈ names, _))

variable {first : String} {names : List String} {row : List Bool} {value : String → Bool}
  {b : Bool}

private theorem rowGives_cons_of_mem (hlength : row.length = names.length) (h : first ∈ names) :
    RowGives (first :: names) value (b :: row) ↔ RowGives names value row := by
  have same (name : String) (hname : name ∈ names) :
      (ofList ((first :: names).zip (b :: row))).get? name =
        (ofList (names.zip row)).get? name :=
    get?_ofList_zip_cons first b hlength hname
  rw [RowGives, List.forall_mem_cons, same first h]
  constructor
  · rintro ⟨-, hrest⟩ name hname
    rw [← same name hname]
    exact hrest name hname
  · intro hrow
    refine ⟨hrow first h, ?_⟩
    intro name hname
    rw [same name hname]
    exact hrow name hname

private theorem rowGives_cons_of_not_mem (hlength : row.length = names.length) (h : first ∉ names) :
    RowGives (first :: names) value (b :: row) ↔ b = value first ∧ RowGives names value row := by
  have here : (ofList ((first :: names).zip (b :: row))).get? first = some b := by
    have absent : first ∉ (names.zip row).map Prod.fst := by
      rwa [List.map_fst_zip (Nat.le_of_eq hlength.symm)]
    rw [List.zip_cons_cons, get?_ofList_cons, get?_ofList_eq_none absent]
    simp
  rw [RowGives, List.forall_mem_cons, here, Option.some.injEq]
  apply and_congr_right'
  apply forall₂_congr
  intro name hname
  rw [get?_ofList_zip_cons first b hlength hname]

private theorem countP_rowGives (names : List String) (value : String → Bool) :
    (rows names.length).countP (fun row ↦ RowGives names value row) =
      Nat.pow 2 (names.length - names.dedup.length) := by
  induction names with
  | nil => rfl
  | cons first names ih =>
    -- Each half of the rows has one value at the place of `first`.
    have half (b : Bool) {p : List Bool → Prop} [DecidablePred p]
        (h : ∀ row, row.length = names.length →
          (RowGives (first :: names) value (b :: row) ↔ p row)) :
        ((rows names.length).map (b :: ·)).countP (fun row ↦ RowGives (first :: names) value row) =
          (rows names.length).countP (fun row ↦ p row) := by
      rw [List.countP_map]
      apply List.countP_congr
      intro row hrow
      simpa using h row (mem_rows.1 hrow)
    rw [List.length_cons, rows, List.countP_append]
    by_cases h : first ∈ names
    · have shorter : names.dedup.length ≤ names.length := names.dedup_sublist.length_le
      rw [half true fun row hrow ↦ rowGives_cons_of_mem hrow h,
        half false fun row hrow ↦ rowGives_cons_of_mem hrow h, ih, List.dedup_cons_of_mem h,
        Nat.sub_add_comm shorter]
      exact (Nat.mul_two _).symm
    · rw [half true fun row hrow ↦ rowGives_cons_of_not_mem hrow h,
        half false fun row hrow ↦ rowGives_cons_of_not_mem hrow h, List.dedup_cons_of_notMem h,
        List.length_cons, Nat.add_sub_add_right, ← ih]
      cases value first <;> simp

end Model

namespace Enumeration

/-- A model that binds exactly the listed names is enumerated once for each way to fill the
places of names that are listed again later. -/
theorem count_toList_ofNames {names : List String} {m : Model} (h : m.BindsExactly names) :
    (ofNames names).toList.count m = Nat.pow 2 (names.length - names.dedup.length) := by
  let value (name : String) : Bool := (m.get? name).getD false
  have values (name : String) (hname : name ∈ names) : m.get? name = some (value name) := by
    obtain ⟨b, hb⟩ := Option.isSome_iff_exists.1 ((h name).2 hname)
    simp only [value, hb, Option.getD_some]
  rw [← Model.countP_rowGives names value, toList_ofNames, List.count, List.countP_map]
  apply List.countP_congr
  intro row hrow
  simp only [Function.comp_apply, beq_iff_eq, decide_eq_true_eq]
  constructor
  · rintro rfl
    exact values
  · intro hgives
    apply Model.eq_of_bindsExactly (Model.bindsExactly_ofList_zip (mem_rows.1 hrow)) h
    intro name hname
    rw [hgives name hname, values name hname]

private theorem exists_assignments (names : List String) :
    ∃ assignments : List Model, assignments.Nodup ∧
      assignments.length = Nat.pow 2 names.dedup.length ∧
      ∀ m, m ∈ assignments ↔ m.BindsExactly names := by
  have listed := lexicographic_toList names.nodup_dedup
  refine ⟨(ofNames names.dedup).toList, Model.nodup_of_pairwise_precedes listed.ordered,
    length_toList_ofNames names.dedup, ?_⟩
  intro m
  rw [listed.complete]
  simp only [Model.BindsExactly, List.mem_dedup]

/-- Over `n` names, call number `k` gives, if `k` is below `2 ^ n`, the model that binds exactly
the names and in which a name is true if the binary digit of `k` at the name's last place is
`0`. All later calls give nothing, so after `k` calls so many models remain as `2 ^ n` exceeds
`k`. If `d` of the names are distinct, each of the `2 ^ d` assignments to them is given
`2 ^ (n - d)` times. -/
theorem answer?_ofNames (names : List String) :
    (∀ k, k < Nat.pow 2 names.length → ∃ m, (ofNames names).answer? k = some m ∧
      m.BindsExactly names ∧ ∀ name ∈ names, ∃ j, LastAt names name j ∧
        m.get? name = some (!k.testBit (names.length - 1 - j))) ∧
    (∀ k, Nat.pow 2 names.length ≤ k → (ofNames names).answer? k = none) ∧
    (∀ k, ((ofNames names).after k).remaining = Nat.pow 2 names.length - k ∧
      ∀ i, (((ofNames names).after k).answer? i).isSome = true ↔
        i < Nat.pow 2 names.length - k) ∧
    ∃ assignments : List Model, assignments.Nodup ∧
      assignments.length = Nat.pow 2 names.dedup.length ∧
      (∀ m, m ∈ assignments ↔ m.BindsExactly names) ∧
      ∀ m ∈ assignments,
        (List.range (Nat.pow 2 names.length)).countP (fun k ↦ (ofNames names).answer? k = some m) =
          Nat.pow 2 (names.length - names.dedup.length) := by
  have all := remaining_ofNames names
  refine ⟨?_, ?_, ?_, ?_⟩
  · intro k hk
    rw [answer?_eq]
    exact exists_toList_getElem? names hk
  · intro k hk
    rw [answer?_eq, List.getElem?_eq_none_iff, length_toList, all]
    exact hk
  · intro k
    have left : ((ofNames names).after k).remaining = Nat.pow 2 names.length - k := by
      rw [remaining_after, all]
    refine ⟨left, ?_⟩
    intro i
    rw [isSome_answer?_iff, left]
  · obtain ⟨assignments, hnodup, hlength, hmem⟩ := exists_assignments names
    refine ⟨assignments, hnodup, hlength, hmem, ?_⟩
    intro m hm
    rw [← all, countP_answer?]
    exact count_toList_ofNames ((hmem m).1 hm)

/-- Over three names, of which the first is listed again at the end, call number `5` gives a model
that two of the calls give, and call number `8` gives none. -/
theorem answer?_ofNames_of_repeated_name :
    let names := ["a", "b", "a"]
    5 < Nat.pow 2 names.length ∧ Nat.pow 2 names.length ≤ 8 ∧
    (ofNames names).answer? 8 = none ∧
    ∃ m, (ofNames names).answer? 5 = some m ∧ m.BindsExactly names ∧
      (∀ name ∈ names, ∃ j, LastAt names name j ∧
        m.get? name = some (!Nat.testBit 5 (names.length - 1 - j))) ∧
      (List.range (Nat.pow 2 names.length)).countP (fun k ↦ (ofNames names).answer? k = some m) =
        2 := by
  intro names
  have below : 5 < Nat.pow 2 names.length := by decide
  have notBelow : Nat.pow 2 names.length ≤ 8 := by decide
  obtain ⟨given, ended, -, assignments, -, -, hmem, hcount⟩ := answer?_ofNames names
  obtain ⟨m, hm, hexact, hvalues⟩ := given 5 below
  exact ⟨below, notBelow, ended 8 notBelow, m, hm, hexact, hvalues,
    hcount m ((hmem m).2 hexact)⟩

end Enumeration

end Sentential
