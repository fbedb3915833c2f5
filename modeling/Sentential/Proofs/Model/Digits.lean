import Sentential.Proofs.Model.Lexicographic

/-!
# Binary digits of the enumerated models

The models over a list of names are numbered by the binary digits of their rows: row number
`k` holds the digits of `k`, the highest first, with `true` for the digit `0`. Where a name
is listed more than once, the digit at its last place is its value.
-/

namespace Sentential

/-! ### Rows -/

/-- So many binary digits of a number, the highest first. The digit `0` is written `true`. -/
def digitRow : Nat → Nat → List Bool
  | 0, _ => []
  | n + 1, k => (!k.testBit n) :: digitRow n k

private theorem digitRow_getElem? {n j : Nat} (k : Nat) (h : j < n) :
    (digitRow n k)[j]? = some (!k.testBit (n - 1 - j)) := by
  induction n generalizing j with
  | zero => omega
  | succ n ih =>
    cases j with
    | zero => rfl
    | succ j =>
      have shifted : n + 1 - 1 - (j + 1) = n - 1 - j := by omega
      rw [digitRow, List.getElem?_cons_succ, ih (by omega), shifted]

private theorem digitRow_pow_add {n i : Nat} (k : Nat) (h : n ≤ i) :
    digitRow n (Nat.pow 2 i + k) = digitRow n k := by
  induction n with
  | zero => rfl
  | succ n ih =>
    have same : (Nat.pow 2 i + k).testBit n = k.testBit n := Nat.testBit_two_pow_add_gt h k
    rw [digitRow, digitRow, same, ih (by omega)]

/-- Row number `k` holds the binary digits of `k`. -/
theorem rows_getElem? {n k : Nat} (h : k < Nat.pow 2 n) :
    (rows n)[k]? = some (digitRow n k) := by
  induction n generalizing k with
  | zero =>
    have first : k = 0 := Nat.lt_one_iff.1 h
    rw [first]
    rfl
  | succ n ih =>
    have doubled : Nat.pow 2 (n + 1) = Nat.pow 2 n * 2 := rfl
    have half (value : Bool) : ((rows n).map (value :: ·)).length = Nat.pow 2 n := by
      rw [List.length_map, length_rows]
    rw [rows, digitRow]
    -- The highest digit tells in which half of the rows the number lies.
    by_cases hk : k < Nat.pow 2 n
    · have digit : k.testBit n = false := Nat.testBit_lt_two_pow hk
      rw [List.getElem?_append_left (by rwa [half]), List.getElem?_map, ih hk, digit]
      rfl
    · obtain ⟨k', rfl⟩ : ∃ k', k = Nat.pow 2 n + k' := ⟨k - Nat.pow 2 n, by omega⟩
      have hk' : k' < Nat.pow 2 n := by omega
      have digit : (Nat.pow 2 n + k').testBit n = true := by
        have flipped : (Nat.pow 2 n + k').testBit n = !k'.testBit n :=
          Nat.testBit_two_pow_add_eq k' n
        rw [flipped, Nat.testBit_lt_two_pow hk']
        rfl
      rw [List.getElem?_append_right (by rw [half]; omega), half, Nat.add_sub_cancel_left,
        List.getElem?_map, ih hk', digit, digitRow_pow_add k' (Nat.le_refl n)]
      rfl

/-! ### Last places of names -/

/-- The name stands at place `j` of the list, counted from `0`, and at none after it. -/
structure LastAt (names : List String) (name : String) (j : Nat) : Prop where
  occurs : names[j]? = some name
  last : ∀ i, j < i → names[i]? ≠ some name

private theorem exists_lastAt {names : List String} {name : String} (h : name ∈ names) :
    ∃ j, LastAt names name j := by
  induction names with
  | nil => cases h
  | cons first names ih =>
    by_cases later : name ∈ names
    · obtain ⟨j, hj⟩ := ih later
      refine ⟨j + 1, hj.occurs, ?_⟩
      intro i hi
      cases i with
      | zero => omega
      | succ i => exact hj.last i (by omega)
    · have here : name = first := (List.mem_cons.1 h).resolve_right later
      refine ⟨0, by rw [here]; rfl, ?_⟩
      intro i hi
      cases i with
      | zero => omega
      | succ i => exact fun hname ↦ later (List.mem_of_getElem? hname)

private theorem LastAt.lt_length {names : List String} {name : String} {j : Nat}
    (h : LastAt names name j) : j < names.length :=
  (List.getElem?_eq_some_iff.1 h.occurs).1

namespace Model

/-- The model of a row gives a name the value at its last place. -/
theorem get?_ofList_zip {names : List String} {row : List Bool} {name : String} {value : Bool}
    {j : Nat} (hlength : row.length = names.length) (hname : LastAt names name j)
    (hrow : row[j]? = some value) : (ofList (names.zip row)).get? name = some value := by
  induction names generalizing row j with
  | nil => cases hname.occurs
  | cons first names ih =>
    cases row with
    | nil => cases hlength
    | cons b row =>
      have hlength := Nat.succ.inj hlength
      rw [List.zip_cons_cons, get?_ofList_cons]
      cases j with
      | zero =>
        have absent : name ∉ (names.zip row).map Prod.fst := by
          rw [List.map_fst_zip (Nat.le_of_eq hlength.symm)]
          intro later
          obtain ⟨i, hi⟩ := List.mem_iff_getElem?.1 later
          exact hname.last (i + 1) (Nat.zero_lt_succ i) hi
        have here : first = name := Option.some.inj hname.occurs
        have found : b = value := Option.some.inj hrow
        rw [get?_ofList_eq_none absent, here, found]
        simp
      | succ j =>
        have later : LastAt names name j :=
          ⟨hname.occurs, fun i hi ↦ hname.last (i + 1) (Nat.succ_lt_succ hi)⟩
        rw [ih hlength later hrow]
        rfl

end Model

namespace Enumeration

/-- Model number `k` over a list of names binds exactly these names, and gives each of them
the digit of `k` at its last place. -/
theorem exists_toList_getElem? (names : List String) {k : Nat}
    (h : k < Nat.pow 2 names.length) :
    ∃ m, (ofNames names).toList[k]? = some m ∧ m.BindsExactly names ∧
      ∀ name ∈ names, ∃ j, LastAt names name j ∧
        m.get? name = some (!k.testBit (names.length - 1 - j)) := by
  have hrow := rows_getElem? h
  have hlength := mem_rows.1 (List.mem_of_getElem? hrow)
  refine ⟨Model.ofList (names.zip (digitRow names.length k)), ?_,
    Model.bindsExactly_ofList_zip hlength, ?_⟩
  · rw [toList_ofNames, List.getElem?_map, hrow]
    rfl
  · intro name hname
    obtain ⟨j, hj⟩ := exists_lastAt hname
    exact ⟨j, hj, Model.get?_ofList_zip hlength hj (digitRow_getElem? k hj.lt_length)⟩

end Enumeration

end Sentential
